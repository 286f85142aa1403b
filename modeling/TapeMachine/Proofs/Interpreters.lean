import TapeMachine.Expression.Interpreter
import TapeMachine.Proofs.Identifiers

/-! Assumptions on an interpreter. The assembler takes the interpreter of its expressions as it is, and
most of what is proved about the assembler holds with any. A proof that needs to know what an
expression means assumes it by one of the properties below, and says no more about the language. The
interpreter of this project has all of them. -/

namespace TapeMachine.Expression

open Text

/-- Numbers that are the same under all names but one. -/
def SameBut (x : Text) (numbers others : Numbers) : Prop :=
  ∀ name, name ≠ x → numbers name = others name

/-- A number does not matter to statements that its name is no part of. -/
def IgnoresUnnamed (interpret : Interpreter) : Prop :=
  ∀ ⦃x : Text⦄, x ≠ [] → (∀ b ∈ x, isLetter b = true) →
    ∀ ⦃numbers others : Numbers⦄, SameBut x numbers others →
      ∀ ⦃t : Text⦄, ¬ x <:+: t → interpret numbers t = interpret others t

/-- What the result name stands for once an expression is assigned to it. -/
def resultOf (interpret : Interpreter) (numbers : Numbers) (t : Text) : Outcome (Option Global) :=
  (interpret numbers (assignment t)).globals.map fun globals => globals resultName

/-- A numeral, with a minus sign before it or without one, gives its number, of whatever size. A name
gives the number it is bound to; one that is bound to none is an error, unless the language means
something by it, which is no number. Names are those made with some letters but reserved words and
the result name. -/
structure ReadsNumbers (interpret : Interpreter) (L : LetterSet) (reserved : Text → Bool) : Prop where
  numeral : ∀ (numbers : Numbers) (v : Int),
    resultOf interpret numbers (ofInt v) = .done (some (.integer v))
  bound : ∀ {numbers : Numbers} {x : Text} {n : Int}, isName L x = true → reserved x = false →
    x ≠ resultName → numbers x = some n →
      resultOf interpret numbers x = .done (some (.integer n))
  unbound : ∀ {numbers : Numbers} {x : Text}, isName L x = true → reserved x = false →
    x ≠ resultName → numbers x = none →
      resultOf interpret numbers x = .failed ∨ resultOf interpret numbers x = .done (some .other)

variable {interpret : Interpreter}

theorem number_evaluate (interpret : Interpreter) (numbers : Numbers) (t : Text) :
    (evaluate interpret numbers t).number =
      (resultOf interpret numbers t).map fun result => result.bind Global.word32? := by
  simp only [evaluate, resultOf]
  cases (interpret numbers (assignment t)).globals <;> rfl

/-- What comes of an expression does not depend on a number whose name does not occur in it. -/
theorem IgnoresUnnamed.evaluate_congr (h : IgnoresUnnamed interpret) {x : Text} (hne : x ≠ [])
    (hx : ∀ b ∈ x, isLetter b = true) (hresult : ¬ x <:+: resultName) {numbers others : Numbers}
    (hsame : SameBut x numbers others) {t : Text} (ht : ¬ x <:+: t) :
    evaluate interpret numbers t = evaluate interpret others t := by
  have hletter : ∀ b : UInt8, isLetter b = false → b ∉ x := fun _ => not_mem_of_forall hx
  -- Neither the equals sign nor the line feed around the expression is a letter.
  have hassignment : ¬ x <:+: assignment t := by
    intro hpart
    rcases infix_of_infix_append_cons (hletter 10 rfl) hpart with hpart | hpart
    · rcases infix_of_infix_append_cons (hletter (byte '=') rfl) hpart with hpart | hpart
      · exact hresult hpart
      · exact ht hpart
    · exact hne (List.eq_nil_of_infix_nil hpart)
  simp only [evaluate, h hne hx hsame hassignment]

end TapeMachine.Expression
