import TapeMachine.Machine.Basic

/-! Why an instruction fails, and where. -/

namespace TapeMachine.Machine

inductive Fault where
  | divisionByZero
  | address (index : Nat) (width : Width)
  | opcodeInvalid
  | registerRange
  | pcRange
  | labelMissing (name : Text)
  deriving DecidableEq

def Fault.message : Fault → Text
  | divisionByZero => text "division by zero"
  | address index width =>
      Message.fill (text "address %#x (width %d) out of bounds") [.int index, .int width.bits]
  | opcodeInvalid => text "opcode invalid"
  | registerRange => text "register out of range"
  | pcRange => text "program counter out of range"
  | labelMissing name => (LabelError.missing name).message

/-- A fault with the program counter and the instruction it stopped at. There is no instruction
before the tape; the invalid one stands for it. -/
structure Trap where
  pc : Word
  insn : Instruction
  fault : Fault
  deriving DecidableEq

def Trap.message (t : Trap) : Text :=
  Message.fill (text "pc %d '%v' %v")
    [.int t.pc.toInt, .text t.insn.toText, .text t.fault.message]

end TapeMachine.Machine
