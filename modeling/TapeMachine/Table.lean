import TapeMachine.Text.Blank
import TapeMachine.Text.Case
import TapeMachine.Text.Width

/-! Text tables. Cells are padded with blanks between bars, every column is as wide as its widest
cell, and header and footer are written in upper case. A column whose row cells are all numbers is
aligned to the right, and so are its header and footer. A cell of several lines makes its row as
high, and terminal escape sequences take no room. -/

namespace TapeMachine

structure Table.Cell where
  text : Text
  numeric : Bool

namespace Table.Cell

def number (t : Text) : Cell := ⟨t, true⟩

def words (t : Text) : Cell := ⟨t, false⟩

end Table.Cell

structure Table where
  title : Option Text := none
  header : List Text
  rows : List (List Table.Cell)
  footer : Option (List Text) := none

namespace Table

/-- What a terminal escape sequence does: it sets a style, or a title or a link, or it is not known
yet. -/
inductive EscapeKind where
  | unknown
  | style
  | setting
  deriving DecidableEq

/-- Where a text stands with respect to an escape sequence: inside one, its first four codes and its
last code are known. -/
inductive Escape where
  | outside
  | inside (kind : EscapeKind) (lead : List Nat) (last : Nat)
  deriving DecidableEq

namespace Escape

def linkLead : List Nat := [0x1B, 0x5D, 0x38, 0x3B]

/-- A bracket says what a sequence does that is not known yet. -/
def kindAfter (kind : EscapeKind) (code : Nat) : EscapeKind :=
  if kind ≠ .unknown then kind
  else if code = 0x5B then .style
  else if code = 0x5D then .setting
  else .unknown

/-- Whether a sequence ends with a code, after the code `last`. A link ends with a bell, or with a
backslash after an escape character; any other setting ends with a backslash, and a style with
`m`. -/
def ends (kind : EscapeKind) (lead : List Nat) (last code : Nat) : Bool :=
  if lead = linkLead then code = 7 || (last = 0x1B && code = 0x5C)
  else (kind = .style && code = 0x6D) || (kind = .setting && code = 0x5C)

def next : Escape → Nat → Escape
  | outside, code => if code = 0x1B then inside .unknown [code] code else outside
  | inside kind lead last, code =>
      let kind := kindAfter kind code
      let lead := if lead.length < 4 then lead ++ [code] else lead
      if ends kind lead last code then outside else inside kind lead code

end Escape

def widthFrom : Escape → List Nat → Nat
  | _, [] => 0
  | e, code :: rest =>
      let after := e.next code
      if e = .outside && after = .outside then Text.codeWidth code + widthFrom after rest
      else widthFrom after rest

def displayWidth (t : Text) : Nat := widthFrom .outside (Text.codes t)

/-- Columns of the widest line after a state, where the line so far takes `width` of them. A line
does not end inside an escape sequence. -/
def longestFrom : Escape → Nat → List Nat → Nat
  | _, width, [] => width
  | e, width, code :: rest =>
      let after := e.next code
      if e = .outside && code = 10 then max width (longestFrom after 0 rest)
      else if e = .outside && after = .outside then
        longestFrom after (width + Text.codeWidth code) rest
      else longestFrom after width rest

/-- The codes in upper case, apart from those of escape sequences, which end with `m`. -/
def upperFrom : Bool → List Nat → List Nat
  | _, [] => []
  | escaped, code :: rest =>
      let inside := escaped || code = 0x1B
      (if inside then code else Text.upperCode code) :: upperFrom (inside && code ≠ 0x6D) rest

def upperCase (t : Text) : Text := Text.ofCodes (upperFrom false (Text.codes t))

/-- Text cut at every occurrence of a byte; there is always a first piece. -/
def pieces (stop : UInt8) : Text → List Text
  | [] => [[]]
  | b :: rest =>
      match pieces stop rest with
      | piece :: more => if b = stop then [] :: piece :: more else (b :: piece) :: more
      | [] => [[b]]

/-- A line as it shows: what follows a carriage return is written over what is there. -/
def overwritten (t : Text) : Text :=
  ((pieces 13 t).foldl
    (fun shown piece => Text.chars piece ++ shown.drop (Text.chars piece).length) []).flatten

/-- The lines of a cell: a tab stands for four blanks. -/
def cellLines (t : Text) : List Text :=
  (pieces 10 (Text.replaceByte 9 (text "    ") t)).map overwritten

def cellWidth (t : Text) : Nat :=
  longestFrom .outside 0 (Text.codes ((text "\n").intercalate (cellLines t)))

structure Column where
  width : Nat
  toRight : Bool

def column (t : Table) (n : Nat) : Column where
  width :=
    let fixed := t.header :: t.footer.toList
    let texts := fixed.map (·.getD n []) ++ t.rows.map fun row => (row.getD n (.words [])).text
    (texts.map cellWidth).foldl max 0
  toRight := t.rows.all fun row => (row.getD n (.words [])).numeric

def columns (t : Table) : List Column := (List.range t.header.length).map t.column

def blanks (n : Nat) : Text := List.replicate n (byte ' ')

def dashes (n : Nat) : Text := List.replicate n (byte '-')

def dropBlanks (t : Text) : Text := t.dropWhile (· = byte ' ')

/-- A line of a cell, filled up with blanks on one side; those it has there are dropped first. -/
def pad (c : Column) (t : Text) : Text :=
  let own := if c.toRight then dropBlanks t else (dropBlanks t.reverse).reverse
  let fill := blanks (c.width - displayWidth own)
  if c.toRight then fill ++ own else own ++ fill

def line (cs : List Column) (texts : List Text) : Text :=
  (List.zipWith (fun c t => text "| " ++ pad c t ++ text " ") cs texts).flatten ++ text "|"

/-- A row as high as its highest cell, with the lines of each cell from the top, as `show_` writes
them. -/
def row (show_ : Text → Text) (cs : List Column) (texts : List Text) : List Text :=
  let cells := texts.map cellLines
  let height := (cells.map List.length).foldl max 0
  (List.range height).map fun n => line cs (cells.map fun c => show_ (c.getD n []))

def rule (cs : List Column) : Text :=
  (cs.map fun c => text "+" ++ dashes (c.width + 2)).flatten ++ text "+"

/-- Columns between the outer bars, blanks included. -/
def innerWidth (cs : List Column) : Nat := cs.foldr (fun c n => c.width + 3 + n) 0 - 1

/-- A text cut into pieces of `width` bytes, the last one shorter; `fuel` bounds how many. -/
def chunks (width : Nat) : Nat → Text → List Text
  | 0, _ => []
  | fuel + 1, t =>
      if t.length ≤ width then [t] else t.take width :: chunks width fuel (t.drop width)

/-- The title spans the table, over as many lines as it needs. -/
def titleLines (cs : List Column) (title : Text) : List Text :=
  let room := innerWidth cs - 2
  (text "+" ++ dashes (innerWidth cs) ++ text "+")
    :: (chunks room (title.length + 1) title).map fun piece =>
      text "| " ++ pad ⟨room, false⟩ (Text.trim piece) ++ text " |"

def lines (t : Table) : List Text :=
  let cs := t.columns
  t.title.toList.flatMap (titleLines cs)
    ++ [rule cs] ++ row upperCase cs t.header ++ [rule cs]
    ++ t.rows.flatMap (fun r => row id cs (r.map Cell.text))
    ++ [rule cs]
    ++ t.footer.toList.flatMap fun f => row upperCase cs f ++ [rule cs]

/-- The table, without a final newline. -/
def render (t : Table) : Text := (text "\n").intercalate t.lines

end Table

end TapeMachine
