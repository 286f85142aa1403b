import TapeMachine.Bindings
import TapeMachine.Instruction
import TapeMachine.Message

/-! Programs. A program is a list of statements, each a label or an instruction with the source
line and words it came from. Resolving its entries binds every label to the number of instructions
before it and leaves the tape of instructions. -/

namespace TapeMachine

inductive Entry where
  | label (name : Text)
  | insn (i : Instruction)
  deriving DecidableEq

namespace Entry

instance : Inhabited Entry := ⟨insn {}⟩

def insn? : Entry → Option Instruction
  | label _ => none
  | insn i => some i

def label? : Entry → Option Text
  | label name => some name
  | insn _ => none

end Entry

structure Statement where
  line : Int := 0
  pc : Int := 0
  words : List Text := []
  entry : Entry := default
  deriving DecidableEq, Inhabited

structure Program where
  statements : List Statement := []
  deriving DecidableEq, Inhabited

namespace Program

def entries (p : Program) : List Entry := p.statements.map Statement.entry

def labels (p : Program) : List Text := p.entries.filterMap Entry.label?

/-- The instructions, each with the place its statement gives it. -/
def instructions (p : Program) : List (Int × Instruction) :=
  p.statements.filterMap fun s => s.entry.insn?.map fun i => (s.pc, i)

def statementAt? (p : Program) (pc : Int) : Option Statement :=
  p.statements.find? fun s => s.entry.insn?.isSome && s.pc = pc

/-- The source line of the instruction at a place on the tape, or 0 if there is none. -/
def lineAt (p : Program) (pc : Int) : Int :=
  match p.statementAt? pc with
  | some s => s.line
  | none => 0

end Program

inductive LabelError where
  | unnamed
  | duplicate (name : Text)
  | missing (name : Text)
  deriving DecidableEq

def LabelError.message : LabelError → Text
  | unnamed => text "label name empty"
  | duplicate name => text "label duplicated: " ++ name
  | missing name => Message.fill (text "label %v missing") [.text name]

/-- What resolving gives, up to the first error. -/
structure Resolution where
  labels : Bindings Nat := {}
  tape : List Instruction := []
  error : Option LabelError := none
  deriving DecidableEq

namespace Resolution

/-- Binds labels to the count of instructions before them, from a count and a table on. -/
def bindLabels : Nat → Bindings Nat → List Entry → Bindings Nat × Option LabelError
  | _, table, [] => (table, none)
  | count, table, .insn _ :: rest => bindLabels (count + 1) table rest
  | count, table, .label name :: rest =>
      if name.isEmpty then (table, some .unnamed)
      else if table.contains name then (table, some (.duplicate name))
      else bindLabels count (table.insert name count) rest

def missing? (table : Bindings Nat) (i : Instruction) : Option Text :=
  i.labelRefs.find? fun name => !table.contains name

/-- The instructions up to the first that refers to a missing label. -/
def stripLabels (table : Bindings Nat) : List Entry → List Instruction × Option LabelError
  | [] => ([], none)
  | .label _ :: rest => stripLabels table rest
  | .insn i :: rest =>
      match missing? table i with
      | some name => ([], some (.missing name))
      | none =>
          let below := stripLabels table rest
          (i :: below.1, below.2)

end Resolution

/-- Resolves the labels of a program. The tape stays empty when the labels themselves are bad. -/
def resolve (entries : List Entry) : Resolution :=
  match Resolution.bindLabels 0 {} entries with
  | (labels, some e) => { labels := labels, error := some e }
  | (labels, none) =>
      let stripped := Resolution.stripLabels labels entries
      { labels := labels, tape := stripped.1, error := stripped.2 }

end TapeMachine
