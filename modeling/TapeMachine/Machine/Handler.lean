import TapeMachine.Machine.Alu

/-! The handlers of instructions. A handler works on the machine in place: what it has written by the
time it fails stays written. A verbose machine also tells what it does; the records never influence
it. -/

namespace TapeMachine.Machine

inductive Event where
  | exec (pc : Word) (insn : Instruction)
  | jump (pc : Word)
  | reset
  | complete (pc : Word) (ticks : Word) (error : Option Trap)
  deriving DecidableEq

/-- What a verbose machine tells, and a silent one does not. -/
def tell (m : Machine) (e : Event) : List Event := if m.verbose then [e] else []

def readReg (m : Machine) (r : Register) : Except Fault Word :=
  match r.slot? with
  | some slot => .ok (m.registers.get slot)
  | none => .error .registerRange

/-- The value of an operand. A label is worth the displacement that a jump from here to it
takes. -/
def valueOf (m : Machine) (o : Operand) : Except Fault Word :=
  match o.kind with
  | .imm => .ok (o.imm.signExtend 64)
  | .label =>
      match m.labels.get? o.label with
      | some target => .ok (BitVec.ofNat 64 target - m.pc - 1)
      | none => .error (.labelMissing o.label)
  | .reg => m.readReg o.reg
  | .ind => do return (← m.readReg o.reg) + o.imm.signExtend 64
  | .unassigned _ => .error .opcodeInvalid

/-- The cell an operand addresses: its value cut to the width of the access. -/
def cellOf (m : Machine) (o : Operand) (width : Width) : Except Fault (Fin memorySize) := do
  let index := ((← m.valueOf o).setWidth width.bits).toNat
  if h : index < memorySize then return ⟨index, h⟩ else throw (.address index width)

/-- A machine at work, and what it has told so far. -/
structure Work where
  machine : Machine
  events : List Event

/-- An action of a machine, which keeps what was done also when it fails. -/
abbrev Handler := EStateM Fault Work

namespace Handler

def machine : Handler Machine := fun w => .ok w.machine w

def update (f : Machine → Machine) : Handler Unit :=
  modify fun w => { w with machine := f w.machine }

def tell (e : Event) : Handler Unit :=
  modify fun w => { w with events := w.events ++ w.machine.tell e }

def ask {α : Type} (question : Machine → Except Fault α) : Handler α := fun w =>
  match question w.machine with
  | .ok a => .ok a w
  | .error f => .error f w

def writeRegister (slot : Fin registerCount) (value : Word) : Handler Unit :=
  update fun m => { m with registers := m.registers.set slot.1 value slot.2 }

def writeCell (cell : Fin memorySize) (value : Word) : Handler Unit :=
  update fun m => { m with memory := m.memory.set cell.1 value cell.2 }

/-- The whole cell is loaded, whatever the width. -/
def load (dst : Fin registerCount) (addr : Operand) (width : Width) : Handler Unit := do
  let cell ← ask (·.cellOf addr width)
  writeRegister dst ((← machine).memory.get cell)

/-- The whole value is stored, whatever the width. -/
def store (addr val : Operand) (width : Width) : Handler Unit := do
  let cell ← ask (·.cellOf addr width)
  let value ← ask (·.valueOf val)
  writeCell cell value

/-- Moves the program counter by an offset, if the jump is taken. -/
def branch (off : Operand) (taken : Bool) : Handler Bool := do
  let displacement ← ask (·.valueOf off)
  if taken then update fun m => { m with pc := m.pc + displacement }
  return taken

/-- Jumps on a condition of the destination register and the source, or without one. -/
def jump (dst : Fin registerCount) (cond : Option Cond) (src off : Operand) : Handler Bool := do
  match cond with
  | none => branch off true
  | some cond =>
      let a := (← machine).registers.get dst
      let b ← ask (·.valueOf src)
      branch off (cond.holds a b)

def tellJump (taken : Bool) : Handler Unit := do
  if taken then tell (.jump ((← machine).pc + 1))

def advance : Handler Bool := do
  update fun m => { m with ticks := m.ticks + 1, pc := m.pc + 1 }
  return false

/-- Executes an instruction whose destination is a register of the bank, and says whether the
program stops. -/
def perform (i : Instruction) (dst : Fin registerCount) : Handler Bool := do
  match i.op with
  | .alu _ =>
      let a := (← machine).registers.get dst
      let b ← ask (·.valueOf i.src)
      writeRegister dst (← ask fun _ => i.op.compute a b)
      advance
  | .neg =>
      writeRegister dst (-(← machine).registers.get dst)
      advance
  | .lddw =>
      writeRegister dst (← ask (·.valueOf i.src))
      advance
  | .load width =>
      load dst i.src width
      advance
  | .store width =>
      store i.addr i.src width
      advance
  | .ja =>
      tellJump (← jump dst none i.src i.off)
      advance
  | .jump cond =>
      tellJump (← jump dst (some cond) i.src i.off)
      advance
  | .stop =>
      update fun m => { m with ticks := m.ticks + 1 }
      return true
  | .invalid => throw .opcodeInvalid
  | .unassigned _ => throw .opcodeInvalid

/-- Executes an instruction at the program counter. Every instruction needs a valid destination
register, also those that leave it alone. -/
def execute (i : Instruction) : Handler Bool := do
  tell (.exec (← machine).pc i)
  match i.dst.slot? with
  | none => throw .registerRange
  | some dst => perform i dst

end Handler

end TapeMachine.Machine
