import TapeMachine.Assembler.Parse

/-! Sources assembled one after another with the same assembler. Equates stay predefined for all the
sources that follow, and what was made of a source stays in the assembler until the next. -/

namespace TapeMachine.Assembler

/-- A source, the equates predefined before it, and whether its lines are told. -/
structure Round where
  predefines : List (Text × Text) := []
  verbose : Bool := false
  source : Text

def prepare (a : Assembler) (r : Round) : Assembler :=
  { a.predefineAll r.predefines with verbose := r.verbose }

/-- The assembler after a source, whatever became of it. -/
def keep (a : Assembler) (x : Assembly) : Assembler := { a with state := x.state }

def parseRounds (depth : Nat) : Assembler → List Round → List Assembly
  | _, [] => []
  | a, r :: rest =>
      let x := (a.prepare r).parse depth r.source
      x :: parseRounds depth ((a.prepare r).keep x) rest

end TapeMachine.Assembler
