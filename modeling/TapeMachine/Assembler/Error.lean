import TapeMachine.Assembler.Constant
import TapeMachine.Program

/-! Why a source is rejected, and where. An error inside a macro carries one frame for each
expansion around it, from the outermost in. -/

namespace TapeMachine.Assembler

inductive Cause where
  | labelDuplicate
  | labelMissing (name : Text)
  | equateSyntax
  | equateDuplicate
  | macroSyntax
  | macroNested
  | macroDuplicate
  | macroUnclosed
  | macroUnopened
  | excessArguments
  | valueMissing
  | targetInvalid
  | indirectInvalid
  | instructionInvalid
  | notNumber (word : Text)
  | notOperand (word : Text)
  | notExpression (bad : BadExpression)
  | lineTooLong
  deriving DecidableEq

/-- The message of a cause. The report of the interpreter on an expression that fails is left out. -/
def Cause.message : Cause → Text
  | labelDuplicate => text "label duplicated"
  | labelMissing name => (LabelError.missing name).message
  | equateSyntax => text ".equ syntax"
  | equateDuplicate => text ".equ duplicated"
  | macroSyntax => text ".macro syntax"
  | macroNested => text ".macro in .macro prohibited"
  | macroDuplicate => text ".macro duplicated"
  | macroUnclosed => text ".macro without .endm"
  | macroUnopened => text ".endm without .macro"
  | excessArguments => text "excessive arguments"
  | valueMissing => text "value missing"
  | targetInvalid => text "target invalid"
  | indirectInvalid => text "indirect operand outside of load or store address"
  | instructionInvalid => text "instruction invalid"
  | notNumber word => Message.fill (text "'%v' is not a 32-bit number") [.text word]
  | notOperand word => Message.fill (text "'%v' is not a register, value or label") [.text word]
  | notExpression bad => Message.fill (text "$(%v) is not a valid expression") [.text bad.text]
  | lineTooLong => text "bufio.Scanner: token too long"

/-- A line of a macro body that failed, as expanded. -/
structure Frame where
  name : Text
  line : Nat
  text : Text
  deriving DecidableEq

inductive Failure where
  | rejected (frames : List Frame) (cause : Cause)
  /-- An operand is the empty word, which only an equate predefined as empty can make it. -/
  | emptyOperand
  /-- The evaluation of an expression crashed. -/
  | expressionCrash
  /-- Macros are nested deeper than allowed. -/
  | tooDeep
  deriving DecidableEq

def Failure.within (f : Frame) : Failure → Failure
  | rejected frames cause => rejected (f :: frames) cause
  | emptyOperand => emptyOperand
  | expressionCrash => expressionCrash
  | tooDeep => tooDeep

end TapeMachine.Assembler

namespace TapeMachine

/-- A rejected source: its line, the text of it, and the cause with the expansions around it. -/
structure SourceError where
  line : Int
  text : Text
  frames : List Assembler.Frame
  cause : Assembler.Cause
  deriving DecidableEq

namespace SourceError

def lineMessage (line : Int) (source cause : Text) : Text :=
  Message.fill (TapeMachine.text "line %d '%v' %v") [.int line, .text source, .text cause]

def frameMessage (cause : Text) : List Assembler.Frame → Text
  | [] => cause
  | f :: frames =>
      lineMessage f.line f.text
        (Message.fill (TapeMachine.text "macro %v line %v %v")
          [.text f.name, .int f.line, .text (frameMessage cause frames)])

def message (e : SourceError) : Text :=
  lineMessage e.line e.text (frameMessage e.cause.message e.frames)

end SourceError

end TapeMachine
