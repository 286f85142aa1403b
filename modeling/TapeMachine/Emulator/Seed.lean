import TapeMachine.Emulator.Basic

/-! Seeds: registers and memory cells set from `NAME=VALUE` text before a run. A list of seeds
applies every valid one and reports every other. -/

namespace TapeMachine.Emulator

inductive SeedError where
  | malformed (seed : Text)
  | registerRange (seed : Text)
  | address (index : Nat)
  deriving DecidableEq

def SeedError.message : SeedError → Text
  | malformed seed => text "seed syntax: " ++ seed
  | registerRange seed => Machine.Fault.registerRange.message ++ text ": " ++ seed
  | address index => (Machine.Fault.address index .dw).message

/-- The name before the first equals sign and the value after it. -/
def splitSeed? (seed : Text) : Option (Text × Word) := do
  let (name, value) ← Text.cut? (byte '=') seed
  match Text.readSigned (Text.trim value) with
  | .ok n => return (Text.trim name, BitVec.ofInt 64 n)
  | .error _ => none

/-- The register number after an `r`, in plain decimal. -/
def registerOf? (name : Text) : Option Register := do
  let index ← Text.dropLead? (text "r") name
  return ⟨← Text.readDecimal? index⟩

def seedRegister (m : Machine) (seed : Text) : Except SeedError Machine :=
  match splitSeed? seed with
  | none => .error (.malformed seed)
  | some (name, value) =>
      match registerOf? name with
      | none => .error (.malformed seed)
      | some r =>
          match m.setReg? r value with
          | none => .error (.registerRange seed)
          | some m => .ok m

def seedMemory (m : Machine) (seed : Text) : Except SeedError Machine :=
  match splitSeed? seed with
  | none => .error (.malformed seed)
  | some (name, value) =>
      match Text.readUnsigned name with
      | .error _ => .error (.malformed seed)
      | .ok index =>
          if h : index < memorySize then .ok (m.setCell ⟨index, h⟩ value)
          else .error (.address index)

/-- Applies seeds in turn and collects the errors of those that fail. -/
def applySeeds (set : Machine → Text → Except SeedError Machine) :
    Machine → List Text → Machine × List SeedError
  | m, [] => (m, [])
  | m, seed :: rest =>
      match set m seed with
      | .ok m => applySeeds set m rest
      | .error err =>
          let below := applySeeds set m rest
          (below.1, err :: below.2)

def seed (e : Emulator) (regs mems : List Text) : Emulator × List SeedError :=
  let (m, regErrors) := applySeeds seedRegister e.machine regs
  let (m, memErrors) := applySeeds seedMemory m mems
  ({ e with machine := m }, regErrors ++ memErrors)

def seedMessage (errors : List SeedError) : Text :=
  (text "\n").intercalate (errors.map SeedError.message)

end TapeMachine.Emulator
