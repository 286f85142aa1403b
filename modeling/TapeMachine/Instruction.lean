import TapeMachine.Opcode
import TapeMachine.Operand

/-! Instructions. An instruction is a record with a place for every field any opcode uses; the
opcode says which of them are its operands. -/

namespace TapeMachine

structure Instruction where
  op : Opcode := .invalid
  dst : Register := ⟨0⟩
  src : Operand := {}
  addr : Operand := {}
  off : Operand := {}
  deriving DecidableEq, Inhabited

namespace Instruction

def alu (op : AluOp) (dst : Register) (src : Operand) : Instruction :=
  { op := .alu op, dst := dst, src := src }

def neg (dst : Register) : Instruction := { op := .neg, dst := dst }

def lddw (dst : Register) (src : Operand) : Instruction := { op := .lddw, dst := dst, src := src }

def load (width : Width) (dst : Register) (src : Operand) : Instruction :=
  { op := .load width, dst := dst, src := src }

def store (width : Width) (addr src : Operand) : Instruction :=
  { op := .store width, addr := addr, src := src }

def ja (off : Operand) : Instruction := { op := .ja, off := off }

def jump (cond : Cond) (dst : Register) (src off : Operand) : Instruction :=
  { op := .jump cond, dst := dst, src := src, off := off }

def stop : Instruction := { op := .stop }

/-- The operands the opcode uses, in the order they are written. -/
def operands (i : Instruction) : List Operand :=
  match i.op with
  | .alu _ => [.ofReg i.dst, i.src]
  | .neg => [.ofReg i.dst]
  | .lddw => [.ofReg i.dst, i.src]
  | .load _ => [.ofReg i.dst, i.src]
  | .store _ => [i.addr, i.src]
  | .ja => [i.off]
  | .jump _ => [.ofReg i.dst, i.src, i.off]
  | .stop => []
  | .invalid => []
  | .unassigned _ => []

def toText (i : Instruction) : Text :=
  Text.unwords (i.op.name :: i.operands.map Operand.toText)

def labelRefs (i : Instruction) : List Text :=
  (i.operands.filter (·.kind = .label)).map Operand.label

end Instruction

end TapeMachine
