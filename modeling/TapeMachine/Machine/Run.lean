import TapeMachine.Machine.Handler

/-! Execution, one instruction at a time and until the program ends. -/

namespace TapeMachine.Machine

def reset (m : Machine) : Machine × List Event := (m.clear, m.tell .reset)

/-- An attempt to execute: the machine after it, the records of it, and whether the program
stopped, or why the attempt failed. -/
structure Attempt (ε : Type) where
  machine : Machine
  events : List Event
  result : Except ε Bool

/-- Executes an instruction, wherever it comes from, at the program counter. -/
def execute (m : Machine) (i : Instruction) : Attempt Fault :=
  match Handler.execute i ⟨m, []⟩ with
  | .ok stopped w => ⟨w.machine, w.events, .ok stopped⟩
  | .error f w => ⟨w.machine, w.events, .error f⟩

/-- Executes the instruction at the program counter. Past the tape there is nothing left to do,
and before the tape there is no instruction. -/
def step (m : Machine) : Attempt Trap :=
  if m.isDone then ⟨m, [], .ok true⟩
  else if m.pc.toInt < 0 then ⟨m, [], .error ⟨m.pc, {}, .pcRange⟩⟩
  else
    let pc := m.pc
    let i := m.tape.getD m.pc.toNat {}
    let a := m.execute i
    ⟨a.machine, a.events, a.result.mapError fun f => ⟨pc, i, f⟩⟩

inductive Ending (ε : Type) where
  | finished
  | failed (error : ε)
  | outOfFuel
  deriving DecidableEq

def Ending.error? {ε : Type} : Ending ε → Option ε
  | failed e => some e
  | _ => none

/-- A run: the machine after it, its records, and how it ended. -/
structure Outcome (ε : Type) where
  machine : Machine
  events : List Event
  ending : Ending ε

/-- Steps until the program is done or fails, at most `fuel` times, after earlier records. -/
def runFrom : Nat → Array Event → Machine → Outcome Trap
  | 0, log, m => ⟨m, log.toList, .outOfFuel⟩
  | fuel + 1, log, m =>
      let a := m.step
      match a.result with
      | .error t => ⟨a.machine, (log ++ a.events).toList, .failed t⟩
      | .ok true => ⟨a.machine, (log ++ a.events).toList, .finished⟩
      | .ok false => runFrom fuel (log ++ a.events) a.machine

/-- The record a run closes with, unless it was cut off. -/
def tellComplete (o : Outcome Trap) : List Event :=
  match o.ending with
  | .outOfFuel => []
  | ending => o.machine.tell (.complete o.machine.pc o.machine.ticks ending.error?)

/-- Runs the machine until the program stops, ends or fails, for at most `fuel` steps. -/
def run (fuel : Nat) (m : Machine) : Outcome Trap :=
  let o := runFrom fuel #[] m
  { o with events := o.events ++ tellComplete o }

end TapeMachine.Machine
