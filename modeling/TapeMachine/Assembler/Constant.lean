import TapeMachine.Bindings
import TapeMachine.Expression.Interpreter
import TapeMachine.Text.Character
import TapeMachine.Text.Decimal

/-! Constants inside a line. A character between quotes stands for the decimal code of its byte,
and `$(...)` for the decimal value of the expression in it. Characters are replaced first, from
left to right, and then expressions. -/

namespace TapeMachine.Assembler

def quote : UInt8 := byte '\x27'

def backslash : UInt8 := byte '\\'

def escapeCode? (b : UInt8) : Option Nat :=
  if b = backslash then some 92
  else if b = byte 'n' then some 10
  else if b = byte 'r' then some 13
  else if b = byte 't' then some 9
  else if b = byte '0' then some 0
  else none

/-- Bytes of the character at the start of a text that a quote follows. The character itself is no
quote. -/
def closedChar? (t : Text) : Option Nat :=
  let width := Text.charWidth t
  match t with
  | [] => none
  | b :: _ =>
      if b ≠ quote && (t.drop width).head? = some quote then some width else none

/-- The code a constant stands for between its quotes; a character of several bytes and an unknown
escape have none. -/
def charCode? : Text → Option Nat
  | [b] => if b = backslash then none else some b.toNat
  | [b, c] => if b = backslash then escapeCode? c else none
  | _ => none

/-- Bytes between the quotes of the character constant at the start of a text. A backslash belongs
to the character after it, if a quote follows that one. -/
def constantWidth? (t : Text) : Option Nat :=
  match t with
  | 0x27 :: 0x5C :: rest =>
      match closedChar? rest with
      | some width => some (width + 1)
      | none => closedChar? (0x5C :: rest)
  | 0x27 :: rest => closedChar? rest
  | _ => none

/-- Replaces character constants, after `skip` more bytes of one already replaced. A constant
without a code stays as it is. -/
def replaceChars : Nat → Text → Text
  | _, [] => []
  | skip + 1, _ :: rest => replaceChars skip rest
  | 0, b :: rest =>
      match constantWidth? (b :: rest) with
      | none => b :: replaceChars 0 rest
      | some width =>
          match charCode? (rest.take width) with
          | some code => Text.ofNat code ++ replaceChars (width + 1) rest
          | none => (b :: rest.take (width + 1)) ++ replaceChars (width + 1) rest

inductive Segment where
  | plain (b : UInt8)
  | expression (t : Text)

/-- The expression at the start of a text: after `$(`, up to the last closing bracket before the
next dollar sign. -/
def expressionAt? : Text → Option Text
  | 0x24 :: 0x28 :: rest =>
      match (Text.before (byte '$') rest).reverse.dropWhile (· ≠ byte ')') with
      | [] => none
      | _ :: body => some body.reverse
  | _ => none

/-- Cuts a line, after `skip` more bytes of an expression already cut out. -/
def segmentsFrom : Nat → Text → List Segment
  | _, [] => []
  | skip + 1, _ :: rest => segmentsFrom skip rest
  | 0, b :: rest =>
      match expressionAt? (b :: rest) with
      | none => .plain b :: segmentsFrom 0 rest
      | some body => .expression body :: segmentsFrom (body.length + 2) rest

def segments (line : Text) : List Segment := segmentsFrom 0 line

inductive ExpressionFlaw where
  /-- It is malformed, or its evaluation fails. -/
  | failed
  /-- Its value is no integer, or none of 32 bits. -/
  | unsuitable
  deriving DecidableEq, Repr

structure BadExpression where
  text : Text
  flaw : ExpressionFlaw
  deriving DecidableEq

inductive ExpandError where
  | bad (e : BadExpression)
  /-- The evaluation of one of them crashes. -/
  | crashed
  deriving DecidableEq

/-- What replaces a part of a line, if it can be replaced, and what its expressions print. -/
structure Expansion where
  text : Except ExpandError Text
  printed : Text := []

def Segment.expand (interpret : Expression.Interpreter) (numbers : Expression.Numbers) :
    Segment → Expansion
  | plain b => { text := .ok [b] }
  | expression t =>
      let e := Expression.evaluate interpret numbers t
      { text :=
          match e.number with
          | .done (some w) => .ok (Text.ofInt w.toInt)
          | .done none => .error (.bad ⟨t, .unsuitable⟩)
          | .failed => .error (.bad ⟨t, .failed⟩)
          | .crashed => .error .crashed
        printed := e.printed }

/-- Two expansions one after the other. Of two bad expressions the last one is reported, and
nothing comes after a crash. -/
def Expansion.append (a b : Expansion) : Expansion :=
  match a.text with
  | .error .crashed => a
  | text =>
      { text :=
          match text, b.text with
          | .ok t, .ok u => .ok (t ++ u)
          | _, .error e => .error e
          | .error e, .ok _ => .error e
        printed := a.printed ++ b.printed }

def expandAll (interpret : Expression.Interpreter) (numbers : Expression.Numbers) :
    List Segment → Expansion
  | [] => { text := .ok [] }
  | s :: rest => (s.expand interpret numbers).append (expandAll interpret numbers rest)

/-- The equates that are integers, which expressions may refer to. -/
def integers (equates : Bindings Text) : Expression.Numbers := fun name =>
  match (equates.get? name).map Text.readSigned with
  | some (.ok n) => some n
  | _ => none

def replaceConstants (interpret : Expression.Interpreter) (equates : Bindings Text) (line : Text) :
    Expansion :=
  expandAll interpret (integers equates) (segments (replaceChars 0 line))

end TapeMachine.Assembler
