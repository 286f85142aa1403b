import TapeMachine.Assembler.Word
import TapeMachine.Text.Blank

/-! Assembling one line. A line first has its constants replaced, and then either defines an
equate, or has its words replaced by equates and declares labels before an instruction or a macro
call. A macro call assembles the body lines with the formal parameters as equates, and what it
defines is forgotten after it; the equate `LINENO` always holds the number of the current line. -/

namespace TapeMachine.Assembler

structure Macro where
  /-- The line of the first body line. -/
  line : Nat
  formals : List Text
  body : List Text
  deriving DecidableEq

structure State where
  statements : Array Statement := #[]
  labels : Bindings Nat := {}
  equates : Bindings Text := {}
  macros : Bindings Macro := {}
  /-- The macro being defined. -/
  defining : Option Text := none
  /-- Instructions so far. -/
  pc : Nat := 0
  /-- Macro calls so far. -/
  expansions : Nat := 0
  /-- What expressions have printed. -/
  printed : Text := []

/-- An action on the state, which it keeps also when it fails. -/
abbrev Asm := EStateM Failure State

namespace Asm

def fail {α : Type} (c : Cause) : Asm α := throw (.rejected [] c)

def ofExcept {α : Type} : Except Failure α → Asm α
  | .ok a => pure a
  | .error e => throw e

/-- Runs an action with other equates and puts back the ones from before, however it ends. -/
def withEquates {α : Type} (equates : Bindings Text) (act : Asm α) : Asm α := fun s =>
  match act { s with equates := equates } with
  | .ok a s' => .ok a { s' with equates := s.equates }
  | .error e s' => .error e { s' with equates := s.equates }

def within {α : Type} (f : Frame) (act : Asm α) : Asm α := fun s =>
  match act s with
  | .ok a s' => .ok a s'
  | .error e s' => .error (e.within f) s'

end Asm

def lineEquate : Text := text "LINENO"

def setLine (n : Nat) : Asm Unit :=
  modify fun s => { s with equates := s.equates.insert lineEquate (Text.ofNat n) }

def readWords (interpret : Expression.Interpreter) (line : Text) : Asm (List Text) := do
  let e := replaceConstants interpret (← get).equates line
  modify fun s => { s with printed := s.printed ++ e.printed }
  match e.text with
  | .ok t => return Text.words t
  | .error (.bad e) => Asm.fail (.notExpression e)
  | .error .crashed => throw .expressionCrash

def defineEquate : List Text → Asm Unit
  | [name, value] => do
      if (← get).equates.contains name then Asm.fail .equateDuplicate
      else modify fun s => { s with equates := s.equates.insert name value }
  | _ => Asm.fail .equateSyntax

def substitute (equates : Bindings Text) (word : Text) : Text := (equates.get? word).getD word

def addStatement (n : Nat) (words : List Text) (entry : Entry) : Asm Unit :=
  modify fun s =>
    { s with statements := s.statements.push { line := n, pc := s.pc, words := words, entry := entry } }

def declareLabel (n : Nat) (word name : Text) : Asm Unit := do
  if !isLabelName name then Asm.fail (.notOperand name)
  else if (← get).labels.contains name then Asm.fail .labelDuplicate
  else do
    modify fun s => { s with labels := s.labels.insert name s.pc }
    addStatement n [word] (.label name)

/-- Declares the labels at the start of a line, and gives the words after them. -/
def declareLabels (n : Nat) : List Text → Asm (List Text)
  | [] => return []
  | word :: rest =>
      match declaredName? word with
      | none => return word :: rest
      | some name => do
          declareLabel n word name
          declareLabels n rest

def addInstruction (n : Nat) (mnemonic : Text) (args : List Text) : Asm Unit := do
  let i ← Asm.ofExcept (instructionOf mnemonic args)
  addStatement n (mnemonic :: args) (.insn i)
  modify fun s => { s with pc := s.pc + 1 }

/-- What `@` stands for in the body of an expansion. -/
def localPart (name : Text) (expansion : Nat) : Text :=
  name ++ text "_" ++ Text.ofNat expansion ++ text "_"

/-- Carries out a macro call whose arguments match the formal parameters, where `assemble` takes in
a line of the body. -/
def expandMacro (assemble : Nat → Text → Asm Unit) (name : Text) (m : Macro) (args : List Text) :
    Asm Unit := do
  let bound := (← get).equates.insertAll (m.formals.zip args)
  Asm.withEquates bound do
    modify fun s => { s with expansions := s.expansions + 1 }
    let here := localPart name (← get).expansions
    m.body.zipIdx.forM fun (line, i) =>
      let line := Text.replaceByte (byte '@') here line
      Asm.within ⟨name, m.line + i, line⟩ (assemble (m.line + i) line)

/-- Takes in the words of a line after its labels: a macro call, carried out by `expand`, or an
instruction. -/
def assembleWords (expand : Text → Macro → List Text → Asm Unit) (n : Nat) (name : Text)
    (args : List Text) : Asm Unit := do
  match (← get).macros.get? name with
  | none => addInstruction n name args
  | some m =>
      if args.length ≠ m.formals.length then Asm.fail .macroSyntax
      else expand name m args

/-- Assembles one line outside macro definitions, with macro calls carried out by `expand`. -/
def assembleWith (interpret : Expression.Interpreter) (expand : Text → Macro → List Text → Asm Unit)
    (n : Nat) (line : Text) : Asm Unit := do
  setLine n
  match ← readWords interpret line with
  | [] => return
  | word :: rest =>
      if word = text ".equ" then defineEquate rest
      else
        let equates := (← get).equates
        match ← declareLabels n ((word :: rest).map (substitute equates)) with
        | [] => return
        | name :: args => assembleWords expand n name args

/-- Assembles one line outside macro definitions, where macro calls may nest `depth` deep. -/
def assembleLine (interpret : Expression.Interpreter) : Nat → Nat → Text → Asm Unit
  | 0 => assembleWith interpret fun _ _ _ => throw .tooDeep
  | depth + 1 => assembleWith interpret (expandMacro (assembleLine interpret depth))

end TapeMachine.Assembler
