import TapeMachine.Assembler.Error

/-! Words of an instruction line: operands and label names. -/

namespace TapeMachine.Assembler

def startsLabel (b : UInt8) : Bool := Text.isLetter b || b = byte '_'

def continuesLabel (b : UInt8) : Bool := startsLabel b || Text.isDigit b || b = byte '.'

/-- A label is a letter or underscore, then letters, digits, underscores and points. -/
def isLabelName : Text → Bool
  | [] => false
  | b :: rest => startsLabel b && rest.all continuesLabel

def declaredName? (word : Text) : Option Text :=
  if word.getLast? = some (byte ':') then some word.dropLast else none

def isSign (b : UInt8) : Bool := b = byte '+' || b = byte '-'

/-- The offset of an address, given with its sign. One plus sign is no part of the number, and an
offset of nothing is zero. -/
def offset? (t : Text) : Option (BitVec 32) :=
  let body := if t.head? = some (byte '+') then t.tail else t
  if body.isEmpty then some 0 else Text.readWord32? body

/-- The address inside square brackets: a register and an optional offset. -/
def indirect? (t : Text) : Option Operand := do
  let r ← Register.ofName? (t.takeWhile (!isSign ·))
  let offset ← offset? (t.dropWhile (!isSign ·))
  return .ofInd r offset

def bracketed? (word : Text) : Option Text :=
  if word.head? = some (byte '[') && word.getLast? = some (byte ']') then
    some word.tail.dropLast
  else none

def operandOf (word : Text) : Except Failure Operand :=
  match Register.ofName? word with
  | some r => .ok (.ofReg r)
  | none =>
      match bracketed? word with
      | some inner =>
          match indirect? inner with
          | some o => .ok o
          | none => .error (.rejected [] (.notOperand word))
      | none =>
          match word with
          | [] => .error .emptyOperand
          | b :: _ =>
              if isSign b || Text.isDigit b then
                match Text.readWord32? word with
                | some value => .ok (.ofImm value)
                | none => .error (.rejected [] (.notNumber word))
              else if isLabelName word then .ok (.ofLabel word)
              else .error (.rejected [] (.notOperand word))

def target (o : Operand) : Except Cause Register :=
  if o.kind = .reg then .ok o.reg else .error .targetInvalid

/-- Only loads take their source from an address. -/
def checkSource (o : Operand) : Except Cause Operand :=
  if o.kind = .ind then .error .indirectInvalid else .ok o

/-- A jump goes by a number or to a label. -/
def checkOffset (o : Operand) : Except Cause Operand :=
  if o.kind = .imm || o.kind = .label then .ok o else .error .targetInvalid

def build (op : Opcode) (operands : List Operand) : Except Cause Instruction :=
  match op, operands with
  | .alu f, [d, s] => do
      let dst ← target d
      return .alu f dst (← checkSource s)
  | .neg, [d] => do return .neg (← target d)
  | .lddw, [d, s] => do
      let dst ← target d
      return .lddw dst (← checkSource s)
  | .load width, [d, s] => do return .load width (← target d) s
  | .store width, [a, s] => do return .store width a (← checkSource s)
  | .ja, [o] => do return .ja (← checkOffset o)
  | .jump cond, [d, s, o] => do
      let dst ← target d
      let off ← checkOffset o
      return .jump cond dst (← checkSource s) off
  | .stop, [] => return .stop
  | _, _ => throw .instructionInvalid

/-- A cause as the failure of a line outside any macro. -/
def reject {α : Type} : Except Cause α → Except Failure α
  | .ok a => .ok a
  | .error c => .error (.rejected [] c)

def instructionOf (mnemonic : Text) (args : List Text) : Except Failure Instruction :=
  match Opcode.ofMnemonic? mnemonic with
  | none => .error (.rejected [] .instructionInvalid)
  | some op =>
      if args.length < op.arity then .error (.rejected [] .valueMissing)
      else if op.arity < args.length then .error (.rejected [] .excessArguments)
      else do reject (build op (← args.mapM operandOf))

end TapeMachine.Assembler
