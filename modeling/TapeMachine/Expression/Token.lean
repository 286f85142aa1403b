import TapeMachine.Expression.Literal
import TapeMachine.Text.Letter

/-! Tokens of compile-time expressions and the statements around them. Blanks and comments separate
tokens. A line end counts only outside brackets, and there the blanks at the start of a line say
how deep it is nested; a backslash before a line end makes it count as a blank. A zero byte ends
the text. -/

namespace TapeMachine.Expression

inductive Symbol where
  | plus
  | minus
  | star
  | starStar
  | slash
  | floorSlash
  | percent
  | amp
  | pipe
  | caret
  | tilde
  | shl
  | shr
  | lt
  | gt
  | le
  | ge
  | eq
  | ne
  | assign
  | comma
  | dot
  | colon
  | semicolon
  | lparen
  | rparen
  | lbrack
  | rbrack
  | lbrace
  | rbrace
  deriving DecidableEq, Repr

inductive Keyword where
  | and
  | or
  | not
  | if_
  | elif
  | else_
  | in_
  | for_
  | lambda
  | def_
  | return_
  | pass
  | break_
  | continue_
  /-- A word that is not free as a name, and has no meaning here. -/
  | reserved
  deriving DecidableEq, Repr

inductive Token where
  | int (n : Nat)
  | float (x : Float)
  | string (t : Text)
  | bytes (t : Text)
  | name (t : Text)
  | symbol (s : Symbol)
  /-- An operator with an equals sign: the target is assigned the result. -/
  | update (s : Symbol)
  | keyword (k : Keyword)
  | lineEnd
  | indent
  | outdent

namespace Token

def keywords : List (Text × Keyword) :=
  [(text "and", .and), (text "or", .or), (text "not", .not), (text "if", .if_),
    (text "elif", .elif), (text "else", .else_), (text "in", .in_), (text "for", .for_),
    (text "lambda", .lambda), (text "def", .def_), (text "return", .return_),
    (text "pass", .pass), (text "break", .break_), (text "continue", .continue_)]

def reservedWords : List Text :=
  ["load", "while", "as", "async", "await", "class", "del", "except", "finally", "from", "global",
    "import", "is", "nonlocal", "raise", "try", "with", "yield"].map text

def ofWord (w : Text) : Token :=
  match keywords.lookup w with
  | some k => keyword k
  | none => if reservedWords.contains w then keyword .reserved else name w

/-- Bytes of the letter, underscore or, past the first place, digit that a text starts with. -/
def nameWidth (first : Bool) (t : Text) : Nat :=
  match t with
  | [] => 0
  | b :: _ =>
      if Text.isLetter b || b = byte '_' || (!first && Text.isDigit b) then 1
      else if b < 0x80 then 0
      else Text.letterWidth t

/-- The rest of a name, while `skip` bytes of its current letter remain. -/
def nameTail : Nat → Text → Text
  | _, [] => []
  | skip + 1, b :: rest => b :: nameTail skip rest
  | 0, b :: rest =>
      match nameWidth false (b :: rest) with
      | 0 => []
      | width + 1 => b :: nameTail width rest

/-- The name a text starts with; empty if it starts with none. -/
def leadingName (t : Text) : Text :=
  match t with
  | [] => []
  | b :: rest =>
      match nameWidth true t with
      | 0 => []
      | width + 1 => b :: nameTail width rest

/-! ### Operators and brackets -/

/-- The operator that an equals sign may follow at the start of a text, and the rest. -/
def operator? : Text → Option (Symbol × Text)
  | 0x2F :: 0x2F :: rest => some (.floorSlash, rest)
  | 0x3C :: 0x3C :: rest => some (.shl, rest)
  | 0x3E :: 0x3E :: rest => some (.shr, rest)
  | 0x2B :: rest => some (.plus, rest)
  | 0x2D :: rest => some (.minus, rest)
  | 0x2A :: rest => some (.star, rest)
  | 0x2F :: rest => some (.slash, rest)
  | 0x25 :: rest => some (.percent, rest)
  | 0x26 :: rest => some (.amp, rest)
  | 0x7C :: rest => some (.pipe, rest)
  | 0x5E :: rest => some (.caret, rest)
  | _ => none

def mark? : Text → Option (Symbol × Text)
  | 0x3C :: 0x3D :: rest => some (.le, rest)
  | 0x3E :: 0x3D :: rest => some (.ge, rest)
  | 0x3D :: 0x3D :: rest => some (.eq, rest)
  | 0x21 :: 0x3D :: rest => some (.ne, rest)
  | 0x7E :: rest => some (.tilde, rest)
  | 0x3C :: rest => some (.lt, rest)
  | 0x3E :: rest => some (.gt, rest)
  | 0x3D :: rest => some (.assign, rest)
  | 0x2C :: rest => some (.comma, rest)
  | 0x2E :: rest => some (.dot, rest)
  | 0x3A :: rest => some (.colon, rest)
  | 0x3B :: rest => some (.semicolon, rest)
  | 0x28 :: rest => some (.lparen, rest)
  | 0x29 :: rest => some (.rparen, rest)
  | 0x5B :: rest => some (.lbrack, rest)
  | 0x5D :: rest => some (.rbrack, rest)
  | 0x7B :: rest => some (.lbrace, rest)
  | 0x7D :: rest => some (.rbrace, rest)
  | _ => none

def symbol? (t : Text) : Option (Token × Text) :=
  if [0x2A, 0x2A].isPrefixOf t then some (symbol .starStar, t.drop 2)
  else match operator? t with
    | some (s, 0x3D :: rest) => some (update s, rest)
    | some (s, rest) => some (symbol s, rest)
    | none => (mark? t).map fun (s, rest) => (symbol s, rest)

/-- The brackets open after a token; closing one that is not open is an error. -/
def depthAfter? (depth : Nat) : Token → Option Nat
  | symbol .lparen => some (depth + 1)
  | symbol .lbrack => some (depth + 1)
  | symbol .lbrace => some (depth + 1)
  | symbol .rparen => if depth = 0 then none else some (depth - 1)
  | symbol .rbrack => if depth = 0 then none else some (depth - 1)
  | symbol .rbrace => if depth = 0 then none else some (depth - 1)
  | _ => some depth

def ofNumber : Literal.Number → Token
  | .int n => int n
  | .float x => float x

def first? (b : UInt8) (rest : Text) : Option (Token × Text) :=
  if Text.isDigit b || (b = byte '.' && rest.head?.any Text.isDigit) then
    (Literal.number? (b :: rest)).map fun (n, rest) => (ofNumber n, rest)
  else match Literal.opening? (b :: rest) with
    | some (o, rest) =>
        (Literal.string? o rest).map fun (t, rest) =>
          (if o.bytes then bytes t else string t, rest)
    | none =>
        let w := leadingName (b :: rest)
        if w.isEmpty then symbol? (b :: rest) else some (ofWord w, (b :: rest).drop w.length)

structure Layout where
  /-- At the start of a line, before its blanks. -/
  start : Bool := true
  /-- Nothing but blanks and a comment on this line so far. -/
  blank : Bool := false
  /-- Brackets that are open. -/
  depth : Nat := 0
  /-- Columns at which the enclosing blocks start, the innermost first; the outermost is at 0. -/
  indents : List Nat := []

namespace Layout

/-- The column after the blanks at the start of a line, and the rest; a tab leads to the next
multiple of eight bytes of the line. -/
def column : Nat → Nat → Text → Nat × Text
  | count, col, b :: rest =>
      if b = byte ' ' then column (count + 1) (col + 1) rest
      else if b = 9 then column (count + 1) (col + (8 - count % 8)) rest
      else (col, b :: rest)
  | _, col, [] => (col, [])

/-- Closes blocks that start after a column; it must be the start of one that stays open. -/
def close? (col : Nat) : List Nat → Option (List Nat × List Token)
  | [] => if col = 0 then some ([], []) else none
  | top :: below =>
      if col < top then (close? col below).map fun (indents, ts) => (indents, outdent :: ts)
      else if col = top then some (top :: below, [])
      else none

/-- The blocks open at a column, and the tokens that open or close them. -/
def enter? (col : Nat) (indents : List Nat) : Option (List Nat × List Token) :=
  if indents.headD 0 < col then some (col :: indents, [indent]) else close? col indents

def finish (l : Layout) : List Token :=
  if l.indents.isEmpty then []
  else (if l.blank then [] else [lineEnd]) ++ l.indents.map fun _ => outdent

end Layout

def endsLine : Text → Bool
  | [] => true
  | b :: _ => b = 0 || b = 10 || b = byte '#'

/-- The tokens of a text from a layout, in at most `fuel` steps. Every step but the first of a line
reads a byte. -/
def scan? : Nat → Layout → Text → Option (List Token)
  | 0, _, _ => some []
  | fuel + 1, l, t =>
      if l.start then
        let (col, t) := Layout.column 0 0 t
        if endsLine t || 0 < l.depth then
          scan? fuel { l with start := false, blank := endsLine t } t
        else match Layout.enter? col l.indents with
          | none => none
          | some (indents, ts) =>
              (scan? fuel { l with start := false, blank := false, indents := indents } t).map
                (ts ++ ·)
      else match t with
        | [] => some l.finish
        | b :: rest =>
            if b = 0 then some l.finish
            else if b = byte ' ' || b = 9 then scan? fuel l rest
            else if b = byte '#' then
              scan? fuel l (rest.dropWhile fun c => c ≠ 10 && c ≠ 0)
            else if b = 10 then
              let below := scan? fuel { l with start := true } rest
              if l.blank || 0 < l.depth then below else below.map (lineEnd :: ·)
            else if b = byte '\\' then
              match rest with
              | 10 :: rest => scan? fuel { l with blank := false } rest
              | _ => none
            else match first? b rest with
              | none => none
              | some (tok, rest) =>
                  match depthAfter? l.depth tok with
                  | none => none
                  | some depth => (scan? fuel { l with depth := depth } rest).map (tok :: ·)

/-- A text with every line end written as one line feed. -/
def unixLines : Text → Text
  | 13 :: 10 :: rest => 10 :: unixLines rest
  | 13 :: rest => 10 :: unixLines rest
  | b :: rest => b :: unixLines rest
  | [] => []

/-- The tokens of a text, unless some part of it is no token. Bytes of no valid character count as
replacement characters. -/
def tokens? (t : Text) : Option (List Token) :=
  let t := unixLines (Text.repaired t)
  scan? (2 * t.length + 2) {} t

end Token

end TapeMachine.Expression
