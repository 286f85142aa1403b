import TapeMachine.Text.Decimal

/-! Registers. The machine has eleven, `r0` to `r10`. An instruction may name any integer; one
outside the bank is carried along and rejected when the instruction executes. -/

namespace TapeMachine

def registerCount : Nat := 11

structure Register where
  index : Int
  deriving DecidableEq, Repr, Inhabited

namespace Register

def IsValid (r : Register) : Prop := 0 ≤ r.index ∧ r.index < registerCount

instance (r : Register) : Decidable r.IsValid := inferInstanceAs (Decidable (_ ∧ _))

def slot? (r : Register) : Option (Fin registerCount) :=
  if h : r.IsValid then
    some ⟨r.index.toNat, by
      have h₀ := h.1
      have h₁ := h.2
      omega⟩
  else none

def name (r : Register) : Text :=
  if r.IsValid then byte 'r' :: Text.ofInt r.index
  else text "Register(" ++ Text.ofInt r.index ++ text ")"

def bank : List Register := (List.range registerCount).map fun (n : Nat) => ⟨(n : Int)⟩

def ofName? (word : Text) : Option Register := bank.find? (·.name = word)

end Register

end TapeMachine
