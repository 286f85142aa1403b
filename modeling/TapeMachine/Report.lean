import TapeMachine.Machine.Basic
import TapeMachine.Table

/-! The tables shown to a user: the registers, the memory in use, and the listing of a program. -/

namespace TapeMachine

def Report.wordCells (w : Word) : List Table.Cell :=
  [.words (Text.hex16 w), .number (Text.ofInt w.toInt)]

def Machine.registerTable (m : Machine) : Table where
  title := some (text "pc " ++ Text.ofInt m.pc.toInt ++ text ", " ++ Text.ofInt m.ticks.toInt
    ++ text " ticks")
  header := [text "Register", text "Hex", text "Decimal"]
  rows := Register.bank.map fun r => .number r.name :: Report.wordCells (m.reg r)

def Machine.memoryTable (m : Machine) : Table where
  title := some (text "Memory")
  header := [text "Address", text "Hex", text "Decimal"]
  rows := m.usedCells.map fun (cell, w) => .number (Text.ofNat cell) :: Report.wordCells w

namespace Program

/-- Rows of a listing after the labels `pending`, and the labels after the last instruction. -/
def listingRows : List Text → List Statement → List (List Table.Cell) × List Text
  | pending, [] => ([], pending)
  | pending, s :: rest =>
      match s.entry with
      | .label name => listingRows (pending ++ [name]) rest
      | .insn i =>
          let below := listingRows [] rest
          ([.number (Text.ofInt s.pc), .words (Text.unwords pending), .words i.toText,
            .number (Text.ofInt s.line)] :: below.1, below.2)

/-- One row for each instruction, with the labels before it; labels at the end of the tape stand
in the footer. -/
def listing (p : Program) : Table :=
  let body := listingRows [] p.statements
  { header := [text "Pc", text "Labels", text "Instruction", text "Line"]
    rows := body.1
    footer := if body.2.isEmpty then none else some [[], Text.unwords body.2, [], []] }

end Program

end TapeMachine
