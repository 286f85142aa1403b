import TapeMachine.Assembler.Line
import TapeMachine.Assembler.Source

/-! Assembling a whole source. Macro definitions are collected as they stand, every other line is
assembled, and at the end every label that an instruction refers to must be declared. -/

namespace TapeMachine

/-- An assembler: the interpreter of its expressions, the equates it starts every source with, and
whether it tells what it reads. It can be used for one source after another. -/
structure Assembler where
  interpret : Expression.Interpreter
  predefined : Bindings Text := {}
  verbose : Bool := false
  /-- What was made of the source before. -/
  state : Assembler.State := {}

namespace Assembler

def fresh (interpret : Expression.Interpreter) : Assembler := { interpret := interpret }

def openMacro (n : Nat) : List Text → Asm Unit
  | [] => do
      if (← get).defining.isSome then Asm.fail .macroNested
      else Asm.fail .macroSyntax
  | name :: formals => do
      if (← get).defining.isSome then Asm.fail .macroNested
      else if (← get).macros.contains name then Asm.fail .macroDuplicate
      else modify fun s =>
        { s with
          macros := s.macros.insert name { line := n + 1, formals := formals, body := [] }
          defining := some name }

def closeMacro : Asm Unit := do
  if (← get).defining.isNone then Asm.fail .macroUnopened
  else modify fun s => { s with defining := none }

def addToMacro (name line : Text) : Asm Unit :=
  modify fun s =>
    match s.macros.get? name with
    | some m => { s with macros := s.macros.insert name { m with body := m.body ++ [line] } }
    | none => s

/-- Takes in line `n` of a source, without its comment. -/
def sourceLine (interpret : Expression.Interpreter) (depth n : Nat) (line : Text) : Asm Unit := do
  match Text.words line, (← get).defining with
  | word :: rest, defining =>
      if word = text ".macro" then openMacro n rest
      else if word = text ".endm" then closeMacro
      else match defining with
        | some name => addToMacro name line
        | none => assembleLine interpret depth n line
  | [], some name => addToMacro name line
  | [], none => assembleLine interpret depth n line

structure Position where
  number : Nat := 0
  text : Text := []

/-- Takes in lines after a position, up to the first failure. -/
def sourceLines (interpret : Expression.Interpreter) (depth : Nat) :
    Position → List Text → State → Position × Option Failure × State
  | pos, [], s => (pos, none, s)
  | pos, raw :: rest, s =>
      let here : Position := ⟨pos.number + 1, Source.strip raw⟩
      match sourceLine interpret depth here.number here.text s with
      | .ok _ s => sourceLines interpret depth here rest s
      | .error e s => (here, some e, s)

/-- The first statement that refers to a label nobody declares, with that label. -/
def missingLabel? (s : State) : Option (Statement × Text) :=
  s.statements.toList.findSome? fun st =>
    st.entry.insn?.bind fun i =>
      (Resolution.missing? s.labels i).map fun name => (st, name)

inductive Verdict where
  | accepted (program : Program)
  | rejected (error : SourceError)
  /-- An empty word stood for an operand. -/
  | crashed
  /-- The evaluation of an expression crashed. -/
  | expressionCrashed
  /-- Macro calls nest deeper than allowed. -/
  | tooDeep
  deriving DecidableEq

/-- What assembling a source gives: the verdict, all that was made up to it, and the lines read if
the assembler tells them. -/
structure Assembly where
  verdict : Verdict
  state : State
  trace : List (Nat × Text)

def judge (overlong : Bool) (pos : Position) (failure : Option Failure) (s : State) : Verdict :=
  let rejectHere (frames : List Frame) (cause : Cause) : Verdict :=
    .rejected ⟨pos.number, pos.text, frames, cause⟩
  match failure with
  | some (.rejected frames cause) => rejectHere frames cause
  | some .emptyOperand => .crashed
  | some .expressionCrash => .expressionCrashed
  | some .tooDeep => .tooDeep
  | none =>
      if overlong then rejectHere [] .lineTooLong
      else if s.defining.isSome then rejectHere [] .macroUnclosed
      else match missingLabel? s with
        | some (st, name) =>
            .rejected ⟨st.line, Text.unwords st.words, [], .labelMissing name⟩
        | none => .accepted ⟨s.statements.toList⟩

def startEquates (a : Assembler) : Bindings Text :=
  (Bindings.empty.insert lineEquate (text "0")).insertAll a.predefined.entries

/-- Defines or redefines an equate for the sources that follow. -/
def predefine (a : Assembler) (name value : Text) : Assembler :=
  { a with predefined := a.predefined.insert name value }

def predefineAll (a : Assembler) (pairs : List (Text × Text)) : Assembler :=
  pairs.foldl (fun a p => a.predefine p.1 p.2) a

/-- The state a source starts with, all of it set anew. -/
def startState (a : Assembler) : State :=
  { a.state with
    statements := #[], labels := {}, equates := a.startEquates, macros := {}, defining := none
    pc := 0, expansions := 0, printed := [] }

/-- Assembles a source whose macro calls may nest `depth` deep. -/
def parse (depth : Nat) (a : Assembler) (source : Text) : Assembly :=
  let ls := Source.lines source
  let (pos, failure, s) := sourceLines a.interpret depth {} ls.texts a.startState
  { verdict := judge ls.overlong pos failure s
    state := s
    trace :=
      if a.verbose then (ls.texts.take pos.number).zipIdx.map fun (t, i) => (i + 1, t) else [] }

end Assembler

end TapeMachine
