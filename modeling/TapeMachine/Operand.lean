import TapeMachine.Register

/-! Operands. An operand is a record of fixed fields, and its kind says which of them count: a
32-bit number, the name of a label, a register, or a register with a 32-bit offset. -/

namespace TapeMachine

inductive Operand.Kind where
  | imm
  | label
  | reg
  | ind
  | unassigned (code : Int)
  deriving DecidableEq, Repr

namespace Operand.Kind

instance : Inhabited Kind := ⟨imm⟩

def numbered : List Kind := [imm, label, reg, ind]

def ofCode (code : Int) : Kind :=
  if code < 0 then unassigned code else numbered.getD code.toNat (unassigned code)

def code : Kind → Int
  | imm => 0
  | label => 1
  | reg => 2
  | ind => 3
  | unassigned n => n

def name : Kind → Text
  | imm => text "imm"
  | label => text "label"
  | reg => text "reg"
  | ind => text "ind"
  | unassigned n => text "OperandKind(" ++ Text.ofInt n ++ text ")"

end Operand.Kind

structure Operand where
  kind : Operand.Kind := .imm
  imm : BitVec 32 := 0
  reg : Register := ⟨0⟩
  label : Text := []
  deriving DecidableEq, Inhabited

namespace Operand

def ofImm (value : BitVec 32) : Operand := { kind := .imm, imm := value }

def ofLabel (name : Text) : Operand := { kind := .label, label := name }

def ofReg (r : Register) : Operand := { kind := .reg, reg := r }

def ofInd (r : Register) (offset : BitVec 32) : Operand := { kind := .ind, reg := r, imm := offset }

/-- The offset of an address as it is written after the register: `+8`, `-8`, or nothing. -/
def offsetText (offset : Int) : Text :=
  if 0 < offset then byte '+' :: Text.ofInt offset
  else if offset < 0 then Text.ofInt offset
  else []

def toText (o : Operand) : Text :=
  match o.kind with
  | .imm => Text.ofInt o.imm.toInt
  | .label => o.label
  | .reg => o.reg.name
  | .ind => text "[" ++ o.reg.name ++ offsetText o.imm.toInt ++ text "]"
  | .unassigned n => text "<" ++ (Kind.unassigned n).name ++ text ">"

end Operand

end TapeMachine
