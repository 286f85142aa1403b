import TapeMachine.Text

/-! Name tables. A table keeps its names in the order of their first binding, and binds each name
once; binding a name again replaces its value. -/

namespace TapeMachine

structure Bindings (α : Type) where
  entries : List (Text × α) := []
  deriving DecidableEq

namespace Bindings

variable {α : Type}

instance : Inhabited (Bindings α) := ⟨{}⟩

def empty : Bindings α := {}

def get? (t : Bindings α) (name : Text) : Option α := t.entries.lookup name

def contains (t : Bindings α) (name : Text) : Bool := (t.get? name).isSome

def bindEntry (name : Text) (value : α) : List (Text × α) → List (Text × α)
  | [] => [(name, value)]
  | (other, old) :: rest =>
      if other = name then (name, value) :: rest else (other, old) :: bindEntry name value rest

def insert (t : Bindings α) (name : Text) (value : α) : Bindings α :=
  ⟨bindEntry name value t.entries⟩

/-- Binds each pair in turn, so the last value for a name stays. -/
def insertAll (t : Bindings α) (pairs : List (Text × α)) : Bindings α :=
  pairs.foldl (fun t p => t.insert p.1 p.2) t

/-- Sequences of pairs one after another, names repeated as they come. -/
def chain (seqs : List (List (Text × α))) : List (Text × α) := seqs.flatten

end Bindings

end TapeMachine
