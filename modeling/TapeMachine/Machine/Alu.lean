import TapeMachine.Machine.Fault

/-! Arithmetic and comparison of words. -/

namespace TapeMachine

/-- How far a shift by `b` goes: the low six bits of `b`. -/
def shiftCount (b : Word) : Nat := b.toNat % 64

/-- The result of an operation; division and remainder by zero have none. Division goes toward
zero, and everything wraps at 64 bits. -/
def AluOp.eval? (op : AluOp) (a b : Word) : Option Word :=
  match op with
  | .add => some (a + b)
  | .sub => some (a - b)
  | .mul => some (a * b)
  | .div => if b = 0 then none else some (a.sdiv b)
  | .or => some (a ||| b)
  | .and => some (a &&& b)
  | .lsh => some (a <<< shiftCount b)
  | .rsh => some (a >>> shiftCount b)
  | .mod => if b = 0 then none else some (a.srem b)
  | .xor => some (a ^^^ b)
  | .mov => some b
  | .arsh => some (a.sshiftRight (shiftCount b))

/-- The result of an arithmetic opcode. No other opcode computes one from two words. -/
def Opcode.compute (op : Opcode) (a b : Word) : Except Machine.Fault Word :=
  match op with
  | .alu op =>
      match op.eval? a b with
      | some value => .ok value
      | none => .error .divisionByZero
  | _ => .error .opcodeInvalid

def Cond.holds (c : Cond) (a b : Word) : Bool :=
  match c with
  | .eq => a == b
  | .ne => a != b
  | .set => (a &&& b) != 0
  | .gt => b.ult a
  | .ge => b.ule a
  | .lt => a.ult b
  | .le => a.ule b
  | .sgt => b.slt a
  | .sge => b.sle a
  | .slt => a.slt b
  | .sle => a.sle b

end TapeMachine
