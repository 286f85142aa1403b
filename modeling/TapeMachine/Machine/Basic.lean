import TapeMachine.Program

/-! The register machine: eleven registers and 8000 memory cells of 64 bits, a program counter
into a tape of instructions, and a count of instructions executed. Program counter and count are words
like the registers and are read as signed numbers, so jumps may leave the tape on either side. -/

namespace TapeMachine

abbrev Word := BitVec 64

def memorySize : Nat := 8000

structure Machine where
  tape : Array Instruction
  labels : Bindings Nat
  registers : Vector Word registerCount
  memory : Vector Word memorySize
  pc : Word
  ticks : Word
  verbose : Bool

namespace Machine

/-- A machine at the start of a tape, with all registers and cells zero. -/
def start (tape : List Instruction) (labels : Bindings Nat) : Machine where
  tape := tape.toArray
  labels := labels
  registers := Vector.replicate registerCount 0
  memory := Vector.replicate memorySize 0
  pc := 0
  ticks := 0
  verbose := false

def ofTape (tape : List Instruction) : Machine := start tape {}

def ofEntries (entries : List Entry) : Except LabelError Machine :=
  let r := resolve entries
  match r.error with
  | some e => .error e
  | none => .ok (start r.tape r.labels)

instance : Inhabited Machine := ⟨ofTape []⟩

def isDone (m : Machine) : Bool := decide ((m.tape.size : Int) ≤ m.pc.toInt)

/-- The value of a register; those outside the bank read as zero. -/
def reg (m : Machine) (r : Register) : Word :=
  match r.slot? with
  | some slot => m.registers.get slot
  | none => 0

def setReg? (m : Machine) (r : Register) (value : Word) : Option Machine :=
  r.slot?.map fun slot => { m with registers := m.registers.set slot.1 value slot.2 }

def setCell (m : Machine) (cell : Fin memorySize) (value : Word) : Machine :=
  { m with memory := m.memory.set cell.1 value cell.2 }

/-- Clears registers, memory and ticks and goes back to the start of the tape. -/
def clear (m : Machine) : Machine :=
  { m with
    registers := Vector.replicate registerCount 0
    memory := Vector.replicate memorySize 0
    pc := 0
    ticks := 0 }

def defines : List (Text × Text) :=
  [(text "MEM_SIZE", Text.ofNat memorySize), (text "REGISTER_COUNT", Text.ofNat registerCount),
    (text "WIDTH_B", Text.ofNat Width.b.bits), (text "WIDTH_H", Text.ofNat Width.h.bits),
    (text "WIDTH_W", Text.ofNat Width.w.bits), (text "WIDTH_DW", Text.ofNat Width.dw.bits)]

/-- The cells that are not zero, with their addresses. -/
def usedCells (m : Machine) : List (Nat × Word) :=
  (m.memory.toList.zipIdx.filter (·.1 ≠ 0)).map fun p => (p.2, p.1)

def wordText (w : Word) : Text :=
  Text.hex16 w ++ text " (" ++ Text.ofInt w.toInt ++ text ")\n"

def fieldText (name : Text) (value : Text) : Text :=
  Text.padLeft 5 (byte ' ') name ++ text ": " ++ value

/-- The program counter, every register, and the cells that are not zero, each on its line. -/
def toText (m : Machine) : Text :=
  fieldText (text "pc") (Text.ofInt m.pc.toInt ++ text "\n")
    ++ Register.bank.flatMap (fun r => fieldText r.name (wordText (m.reg r)))
    ++ m.usedCells.flatMap fun (cell, w) =>
        text "[" ++ Text.padLeft 4 (byte '0') (Text.ofNat cell) ++ text "]: " ++ wordText w

end Machine

end TapeMachine
