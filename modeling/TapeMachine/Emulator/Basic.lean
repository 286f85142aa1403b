import TapeMachine.Assembler.Parse
import TapeMachine.Machine.Run

/-! The emulator: a machine together with the program it was loaded from, so that errors name a
source line, and a limit on the ticks of a run. -/

namespace TapeMachine

structure Emulator where
  machine : Machine := Machine.ofTape []
  program : Program := {}
  /-- The ticks a run may take; no limit unless positive. -/
  maxTicks : Word := 0
  verbose : Bool := false

namespace Emulator

inductive Cause where
  | trap (t : Machine.Trap)
  | tickLimit
  deriving DecidableEq

def Cause.message : Cause → Text
  | trap t => t.message
  | tickLimit => text "tick limit exceeded"

structure RuntimeError where
  line : Int
  cause : Cause
  deriving DecidableEq

def RuntimeError.message (e : RuntimeError) : Text :=
  Message.fill (text "line %d %v") [.int e.line, .text e.cause.message]

def defines (e : Emulator) : List (Text × Text) :=
  Bindings.chain [[(text "MAX_TICKS", Text.ofInt e.maxTicks.toInt)], Machine.defines]

def assembler (e : Emulator) (interpret : Expression.Interpreter) : Assembler :=
  Assembler.predefineAll { Assembler.fresh interpret with verbose := e.verbose } e.defines

/-- Replaces machine and program, or neither. -/
def load (e : Emulator) (p : Program) : Except LabelError Emulator := do
  let m ← Machine.ofEntries p.entries
  return { e with machine := { m with verbose := e.verbose }, program := p }

def reset (e : Emulator) : Emulator :=
  { e with machine := { e.machine.clear with verbose := e.verbose } }

/-- The source line of the next instruction, or 0 if there is none. -/
def line (e : Emulator) : Int := e.program.lineAt e.machine.pc.toInt

inductive Event where
  | machine (e : Machine.Event)
  | done (ticks : Word) (error : Option RuntimeError)
  deriving DecidableEq

/-- One step: the emulator after it, the records of the machine, and whether the program is done,
or why it failed. -/
structure Ticked where
  emulator : Emulator
  events : List Machine.Event
  result : Except RuntimeError Bool

/-- Steps the machine. A failure is on the line of the instruction that failed, where the machine
stood before the step. -/
def tick : Emulator → Ticked
  | ⟨machine, program, maxTicks, verbose⟩ =>
      let pc := machine.pc
      let a := Machine.step { machine with verbose := verbose }
      { emulator := ⟨a.machine, program, maxTicks, verbose⟩
        events := a.events
        result := a.result.mapError fun t => ⟨program.lineAt pc.toInt, .trap t⟩ }

def overLimit (e : Emulator) : Bool :=
  decide (0 < e.maxTicks.toInt) && decide (e.maxTicks.toInt ≤ e.machine.ticks.toInt) &&
    !e.machine.isDone

/-- A run: the emulator after it, its records, and how it ended. -/
structure Outcome where
  emulator : Emulator
  events : List Event
  ending : Machine.Ending RuntimeError

def tellDone (e : Emulator) (error : Option RuntimeError) : List Event :=
  if e.verbose then [.done e.machine.ticks error] else []

/-- Ticks until the program is done, fails or reaches the limit, at most `fuel` times, after
earlier records. A run cut at the limit has no closing record. -/
def runFrom : Nat → Array Event → Emulator → Outcome
  | 0, log, e => ⟨e, log.toList, .outOfFuel⟩
  | fuel + 1, log, e =>
      if e.overLimit then ⟨e, log.toList, .failed ⟨e.line, .tickLimit⟩⟩
      else
        let t := e.tick
        let log := log ++ t.events.map Event.machine
        match t.result with
        | .error err =>
            ⟨t.emulator, log.toList ++ t.emulator.tellDone (some err), .failed err⟩
        | .ok true => ⟨t.emulator, log.toList ++ t.emulator.tellDone none, .finished⟩
        | .ok false => runFrom fuel log t.emulator

def run (fuel : Nat) (e : Emulator) : Outcome := runFrom fuel #[] e

end Emulator

end TapeMachine
