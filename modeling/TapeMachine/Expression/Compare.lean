import TapeMachine.Expression.Dict

/-! Comparison of values. Integers and floating-point numbers compare by what they denote, sequences
item by item, and what is kept in the store by place, unless it is a list or a dictionary. Values of
other kinds differ, and have no order. Comparison goes only ten levels deep. -/

namespace TapeMachine.Expression

inductive Relation where
  | eq
  | ne
  | lt
  | gt
  | le
  | ge
  deriving DecidableEq, Repr

namespace Relation

def holds (r : Relation) (o : Ordering) : Bool :=
  match r with
  | eq => o == .eq
  | ne => o != .eq
  | lt => o == .lt
  | gt => o == .gt
  | le => o != .gt
  | ge => o != .lt

def ofEqual? (r : Relation) (equal : Bool) : Option Bool :=
  match r with
  | eq => some equal
  | ne => some !equal
  | _ => none

/-- The relation of two sequences, by the first items that differ, and by their lengths if there
are none. `compare` relates items. -/
def sequences? (compare : Relation → Value → Value → Option Bool) (r : Relation) :
    List Value → List Value → Option Bool
  | x :: xs, y :: ys =>
      match compare .eq x y with
      | none => none
      | some true => sequences? compare r xs ys
      | some false =>
          match r with
          | .eq => some false
          | .ne => some true
          | r => compare r x y
  | [], [] => some (r.holds .eq)
  | [], _ :: _ => some (r.holds .lt)
  | _ :: _, [] => some (r.holds .gt)

/-- The same for sequences of known lengths, which differ if these do. -/
def sized? (compare : Relation → Value → Value → Option Bool) (r : Relation) (xs ys : List Value) :
    Option Bool :=
  if (r = .eq || r = .ne) && xs.length ≠ ys.length then some (decide (r = .ne))
  else sequences? compare r xs ys

end Relation

namespace Value

/-- Whether every entry of one dictionary is one of the other, as `equal` compares values. A key
that cannot be looked for is not there. -/
def sameEntries? (s : Store) (equal : Value → Value → Option Bool) (other : Dict) :
    List Entry → Option Bool
  | [] => some true
  | e :: rest =>
      match other.get? s e.key with
      | some (some w) =>
          match equal e.value w with
          | some true => sameEntries? s equal other rest
          | answer => answer
      | _ => some false

/-- Relates two values, at most `depth` levels deep. -/
def relate? (s : Store) : Nat → Relation → Value → Value → Option Bool
  | 0, _, _, _ => none
  | depth + 1, r, x, y =>
      match x, y with
      | nil, nil => r.ofEqual? true
      | bool a, bool b => some (r.holds (compare a.toNat b.toNat))
      | int m, int n => some (r.holds (compare m n))
      | int m, float y => some (r.holds (Number.compareInt m y))
      | float x, int n => some (r.holds (Number.compareInt n x).swap)
      | float x, float y => some (r.holds (Number.compareFloat x y))
      | string t, string u => some (r.holds (compare t u))
      | bytes t, bytes u => some (r.holds (compare t u))
      | tuple xs, tuple ys => r.sized? (relate? s depth) xs ys
      | list a, list b => r.sized? (relate? s depth) (s.listAt a).toList (s.listAt b).toList
      | dict a, dict b =>
          let xs := (s.dictAt a).entries
          let ys := s.dictAt b
          if r = .eq || r = .ne then
            if xs.size ≠ ys.entries.size then r.ofEqual? false
            else (sameEntries? s (relate? s depth .eq) ys xs.toList).bind r.ofEqual?
          else none
      | range a b c, range a' b' c' =>
          let n := rangeLength a b c
          r.ofEqual? (n = rangeLength a' b' c' && (n = 0 || (a = a' && (n = 1 || c = c'))))
      | view v t, view w u => r.ofEqual? (v = w && t = u)
      | builtin f, builtin g => r.ofEqual? (f = g)
      | function a, function b => r.ofEqual? (a = b)
      | method a, method b => r.ofEqual? (a = b)
      | _, _ => r.ofEqual? false

def compare? (s : Store) (r : Relation) (x y : Value) : Option Bool := relate? s depthLimit r x y

def equal? (s : Store) (x y : Value) : Option Bool := compare? s .eq x y

end Value

end TapeMachine.Expression
