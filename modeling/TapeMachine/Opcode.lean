import TapeMachine.Text.Decimal

/-! Opcodes. Thirty-five are assigned, numbered from 1; number 0 marks an invalid instruction, and
every other number is unassigned. -/

namespace TapeMachine

inductive Width where
  | b
  | h
  | w
  | dw
  deriving DecidableEq, Repr

def Width.bits : Width → Nat
  | .b => 8
  | .h => 16
  | .w => 32
  | .dw => 64

inductive AluOp where
  | add
  | sub
  | mul
  | div
  | or
  | and
  | lsh
  | rsh
  | mod
  | xor
  | mov
  | arsh
  deriving DecidableEq, Repr

/-- Condition of a jump, on the two operands read as unsigned or as signed words. -/
inductive Cond where
  | eq
  | ne
  | set
  | gt
  | ge
  | lt
  | le
  | sgt
  | sge
  | slt
  | sle
  deriving DecidableEq, Repr

inductive Opcode where
  | invalid
  | alu (op : AluOp)
  | neg
  | lddw
  | load (width : Width)
  | store (width : Width)
  | ja
  | jump (cond : Cond)
  | stop
  | unassigned (code : Int)
  deriving DecidableEq, Repr, Inhabited

namespace Opcode

inductive Kind where
  | invalid
  | alu
  | neg
  | lddw
  | load
  | store
  | jump
  | stop
  deriving DecidableEq, Repr

def kind : Opcode → Kind
  | invalid => .invalid
  | alu _ => .alu
  | neg => .neg
  | lddw => .lddw
  | load _ => .load
  | store _ => .store
  | ja => .jump
  | jump _ => .jump
  | stop => .stop
  | unassigned _ => .invalid

/-- Bits of the address of a load or store, and 0 for other opcodes. -/
def addressBits : Opcode → Nat
  | load width => width.bits
  | store width => width.bits
  | _ => 0

def numbered : List Opcode :=
  [invalid, alu .add, alu .sub, alu .mul, alu .div, alu .or, alu .and, alu .lsh, alu .rsh,
    alu .mod, alu .xor, alu .mov, alu .arsh, neg, lddw, load .b, load .h, load .w, load .dw,
    store .b, store .h, store .w, store .dw, ja, jump .eq, jump .ne, jump .set, jump .gt,
    jump .ge, jump .lt, jump .le, jump .sgt, jump .sge, jump .slt, jump .sle, stop]

def ofCode (code : Int) : Opcode :=
  if code < 0 then unassigned code
  else numbered.getD code.toNat (unassigned code)

def code : Opcode → Int
  | unassigned n => n
  | op => numbered.idxOf op

def name : Opcode → Text
  | invalid => text "invalid"
  | alu .add => text "add"
  | alu .sub => text "sub"
  | alu .mul => text "mul"
  | alu .div => text "div"
  | alu .or => text "or"
  | alu .and => text "and"
  | alu .lsh => text "lsh"
  | alu .rsh => text "rsh"
  | alu .mod => text "mod"
  | alu .xor => text "xor"
  | alu .mov => text "mov"
  | alu .arsh => text "arsh"
  | neg => text "neg"
  | lddw => text "lddw"
  | load .b => text "ldxb"
  | load .h => text "ldxh"
  | load .w => text "ldxw"
  | load .dw => text "ldxdw"
  | store .b => text "stb"
  | store .h => text "sth"
  | store .w => text "stw"
  | store .dw => text "stdw"
  | ja => text "ja"
  | jump .eq => text "jeq"
  | jump .ne => text "jne"
  | jump .set => text "jset"
  | jump .gt => text "jgt"
  | jump .ge => text "jge"
  | jump .lt => text "jlt"
  | jump .le => text "jle"
  | jump .sgt => text "jsgt"
  | jump .sge => text "jsge"
  | jump .slt => text "jslt"
  | jump .sle => text "jsle"
  | stop => text "stop"
  | unassigned n => text "Opcode(" ++ Text.ofInt n ++ text ")"

/-- The opcode a mnemonic names; `invalid` is no mnemonic. -/
def ofMnemonic? (word : Text) : Option Opcode := numbered.tail.find? (·.name = word)

/-- Operands an assembler line gives after the mnemonic. -/
def arity : Opcode → Nat
  | alu _ => 2
  | lddw => 2
  | load _ => 2
  | store _ => 2
  | neg => 1
  | ja => 1
  | jump _ => 3
  | invalid => 0
  | stop => 0
  | unassigned _ => 0

end Opcode

end TapeMachine
