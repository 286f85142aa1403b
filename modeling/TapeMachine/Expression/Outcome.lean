/-! How a computation ends. A failure is an answer like any other, and the caller of the computation
deals with it; a crash is none, and nothing goes on after it. -/

namespace TapeMachine.Expression

inductive Outcome (α : Type) where
  | done (a : α)
  | failed
  | crashed
  deriving DecidableEq, Repr

namespace Outcome

def map {α β : Type} (f : α → β) : Outcome α → Outcome β
  | done a => done (f a)
  | failed => failed
  | crashed => crashed

def ofOption {α : Type} : Option α → Outcome α
  | some a => done a
  | none => failed

end Outcome

end TapeMachine.Expression
