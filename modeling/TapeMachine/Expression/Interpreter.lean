import TapeMachine.Expression.Outcome
import TapeMachine.Text.Numeral

/-! Expressions as the assembler sees them. It makes an expression into a line that assigns its value
to a name, has an interpreter of the language run the line, and takes the value that the name has then
if it is an integer of 32 bits. -/

namespace TapeMachine.Expression

/-- A value, told apart only by whether it is an integer. -/
inductive Global where
  | integer (n : Int)
  | other
  deriving DecidableEq

/-- What comes of running statements: the values of names at their end, and what they print. -/
structure Execution where
  globals : Outcome (Text → Option Global)
  printed : Text := []

/-- The numbers that names stand for. -/
abbrev Numbers := Text → Option Int

/-- An interpreter runs statements in which some numbers are known by name. -/
abbrev Interpreter := Numbers → Text → Execution

def resultName : Text := text "rc"

/-- The line that gives the value of an expression to the result name. -/
def assignment (t : Text) : Text := resultName ++ byte '=' :: t ++ [10]

/-- What comes of an expression: the number it denotes, which is none if its value is no integer or
not one of 32 bits, and what it prints. -/
structure Evaluation where
  number : Outcome (Option (BitVec 32))
  printed : Text

def Global.word32? : Global → Option (BitVec 32)
  | integer n => Text.word32? n
  | other => none

/-- Evaluates an expression. If it turns the assignment into a comparison, there is no value. -/
def evaluate (interpret : Interpreter) (numbers : Numbers) (t : Text) : Evaluation :=
  let e := interpret numbers (assignment t)
  { number := e.globals.map fun globals => (globals resultName).bind Global.word32?
    printed := e.printed }

end TapeMachine.Expression
