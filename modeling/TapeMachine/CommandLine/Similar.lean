import TapeMachine.Text.Case

/-! Names that may have been meant by a mistyped one: those at most two edits away, whatever the
case of their letters, and those that continue it. -/

namespace TapeMachine.CommandLine

/-- Distances of the prefixes of a text that end with `a` from those of `t`, from the distances
without it. `left` is the distance from what stands before the rest of `t`. -/
def editStep (a : UInt8) : Nat → Text → List Nat → List Nat
  | left, b :: t, diagonal :: above :: row =>
      let d := if a = b then diagonal else 1 + min diagonal (min left above)
      d :: editStep a d t (above :: row)
  | _, _, _ => []

/-- The next row of distances from the prefixes of `t`, the empty one first. -/
def editRow (t : Text) (row : List Nat) (a : UInt8) : List Nat :=
  let first := row.headD 0 + 1
  first :: editStep a first t row

/-- The fewest bytes to insert, remove or replace that turn one text into the other. -/
def editDistance (s t : Text) : Nat :=
  (s.foldl (editRow t) (List.range (t.length + 1))).getLastD 0

def isSimilar (typed name : Text) : Bool :=
  let typed := Text.lowerCase typed
  editDistance typed name ≤ 2 || typed.isPrefixOf name

/-- The names, all in lower case, that a typed one is similar to. -/
def similarNames (names : List Text) (typed : Text) : List Text := names.filter (isSimilar typed)

end TapeMachine.CommandLine
