import TapeMachine.Expression.Shown

/-! Operators on values, indices and slices. An operation that a value does not support fails. -/

namespace TapeMachine.Expression

namespace BinaryOp

def relation? : BinaryOp → Option Relation
  | eq => some .eq
  | ne => some .ne
  | lt => some .lt
  | gt => some .gt
  | le => some .le
  | ge => some .ge
  | _ => none

end BinaryOp

namespace Value

/-- The two operands as floating-point numbers, if one of them is such and the other a number. -/
def floats? : Value → Value → Option (Float × Float)
  | float x, float y => some (x, y)
  | int n, float y => (Number.ofInt? n).map (·, y)
  | float x, int n => (Number.ofInt? n).map (x, ·)
  | _, _ => none

/-- Arithmetic on numbers, by the one of the two functions that fits. -/
def arith? (onInts : Int → Int → Int) (onFloats : Float → Float → Float) :
    Value → Value → Option Value
  | int m, int n => some (int (onInts m n))
  | x, y => (floats? x y).map fun (x, y) => float (onFloats x y)

/-- Division of numbers, by the one of the two functions that fits. The divisor is not zero. -/
def divide? (onInts : Int → Int → Int) (onFloats : Float → Float → Float) :
    Value → Value → Option Value
  | int m, int n => if n = 0 then none else some (int (onInts m n))
  | x, y =>
      match floats? x y with
      | some (x, y) => if y == 0 then none else some (float (onFloats x y))
      | none => none

def quotient? : Value → Value → Option Value
  | int m, int n =>
      match Number.ofInt? m, Number.ofInt? n with
      | some x, some y => if y == 0 then none else some (float (x / y))
      | _, _ => none
  | x, y => divide? (fun m _ => m) (· / ·) x y

def commonWidth (m n : Int) : Nat := max m.natAbs.log2 n.natAbs.log2 + 2

/-- A bitwise operation on unbounded integers in two's complement. -/
def bitwise (f : (w : Nat) → BitVec w → BitVec w → BitVec w) (m n : Int) : Int :=
  let w := commonWidth m n
  (f w (BitVec.ofInt w m) (BitVec.ofInt w n)).toInt

def onInts? (f : Int → Int → Option Int) : Value → Value → Option Value
  | int m, int n => (f m n).map int
  | _, _ => none

/-- A shift count is not negative and fits 32 signed bits. -/
def shiftCount? (n : Int) : Option Nat :=
  if 0 ≤ n && n < 0x80000000 then some n.toNat else none

/-- Shifts to the left stay below this. -/
def shiftLimit : Nat := 512

def shiftLeft? (m n : Int) : Option Int :=
  match shiftCount? n with
  | some k => if k < shiftLimit then some (m <<< k) else none
  | none => none

/-- No sequence grows to this length by repetition. -/
def repeatLimit : Nat := 0x40000000

/-- How often a sequence of some length is repeated. The empty one is repeated without a look at
the count. -/
def repeatCount? (length : Nat) (n : Int) : Option Nat :=
  if length = 0 then some 0
  else match int32? (int n) with
    | none => none
    | some n =>
        if n < 1 then some 0
        else if repeatLimit ≤ length * n.toNat then none
        else some n.toNat

def repeatedOnto {α : Type} (items : List α) : Nat → List α → List α
  | 0, acc => acc
  | count + 1, acc => repeatedOnto items count (items ++ acc)

def repeated {α : Type} (items : List α) (count : Nat) : List α := repeatedOnto items count []

def repeat? (s : Store) (n : Int) : Value → Option (Run Value)
  | string t => (repeatCount? t.length n).map fun k => return string (repeated t k)
  | bytes t => (repeatCount? t.length n).map fun k => return bytes (repeated t k)
  | tuple items => (repeatCount? items.length n).map fun k => return tuple (repeated items k)
  | list place =>
      let items := (s.listAt place).toList
      (repeatCount? items.length n).map fun k => Run.newList (repeated items k).toArray
  | _ => none

def occursIn (part : Text) : Text → Bool
  | [] => part.isEmpty
  | b :: rest => part.isPrefixOf (b :: rest) || occursIn part rest

def memberOf? (s : Store) (x : Value) : List Value → Option Bool
  | [] => some false
  | v :: vs =>
      match equal? s v x with
      | some false => memberOf? s x vs
      | answer => answer

/-- Whether a number of 32 bits with sign is one of a range, where it stands being counted in 64
bits; no other number is. -/
def inRange (start stop step n : Int) : Bool :=
  let far := wrap64 (n - start)
  let i := wrap64 (far.tdiv step)
  (int32? (int n)).isSome && far.tmod step = 0 && 0 ≤ i && i < rangeLength start stop step

def member? (s : Store) (x : Value) : Value → Option Bool
  | tuple items => memberOf? s x items
  | list place => memberOf? s x (s.listAt place).toList
  | dict place =>
      match (s.dictAt place).find? s x with
      | some (some _) => some true
      | _ => some false
  | string t => x.string?.map (occursIn · t)
  | bytes t =>
      match x with
      | bytes part => some (occursIn part t)
      | int n => if 0 ≤ n && n < 256 then some (t.contains (n.toNat.toUInt8)) else none
      | _ => none
  | range a b c => x.toInt?.map (inRange a b c)
  | _ => none

/-! ### Operators -/

def add (x y : Value) : Run Value := do
  match x, y with
  | string s, string t => return string (s ++ t)
  | tuple xs, tuple ys => return tuple (xs ++ ys)
  | list a, list b =>
      let s ← Run.store
      Run.newList (s.listAt a ++ s.listAt b)
  | x, y => Run.ofOption (arith? (· + ·) (· + ·) x y)

def multiply (x y : Value) : Run Value := do
  let s ← Run.store
  match x, y with
  | int m, int n => return int (m * n)
  | int n, y => ((repeat? s n y).orElse fun _ => (arith? (· * ·) (· * ·) x y).map pure).getD failure
  | x, int n => ((repeat? s n x).orElse fun _ => (arith? (· * ·) (· * ·) x y).map pure).getD failure
  | x, y => Run.ofOption (arith? (· * ·) (· * ·) x y)

def union (x y : Value) : Run Value := do
  match x, y with
  | dict a, dict b =>
      let s ← Run.store
      let d := { s.dictAt a with used := true }
      Run.newDict (d.overlay s (s.dictAt b).entries.toList)
  | x, y => Run.ofOption (onInts? (fun m n => some (bitwise (fun _ a b => a ||| b) m n)) x y)

def remainderOf (x y : Value) : Run Value := do
  match x with
  | string t => return string (← Run.ofOption (Template.interpolate? (← Run.store) t y))
  | x => Run.ofOption (divide? Int.fmod Number.floorRemainder x y)

/-- A binary operation on two values that are both known. -/
def binary (op : BinaryOp) (x y : Value) : Run Value := do
  match op.relation? with
  | some r => return bool (← Run.ofOption (compare? (← Run.store) r x y))
  | none =>
      match op with
      | .in_ => return bool (← Run.ofOption (member? (← Run.store) x y))
      | .notIn => return bool (!(← Run.ofOption (member? (← Run.store) x y)))
      | .bitOr => union x y
      | .bitXor =>
          Run.ofOption (onInts? (fun m n => some (bitwise (fun _ a b => a ^^^ b) m n)) x y)
      | .bitAnd =>
          Run.ofOption (onInts? (fun m n => some (bitwise (fun _ a b => a &&& b) m n)) x y)
      | .shl => Run.ofOption (onInts? shiftLeft? x y)
      | .shr => Run.ofOption (onInts? (fun m n => (shiftCount? n).map (Int.shiftRight m)) x y)
      | .add => add x y
      | .sub => Run.ofOption (arith? (· - ·) (· - ·) x y)
      | .mul => multiply x y
      | .mod => remainderOf x y
      | .div => Run.ofOption (quotient? x y)
      | .floorDiv => Run.ofOption (divide? Int.fdiv (fun x y => (x / y).floor) x y)
      | _ => failure

def unary (op : UnaryOp) (x : Value) : Run Value := do
  match op, x with
  | .not, x => return bool (!(← x.isTrueM))
  | .plus, int n => return int n
  | .plus, float x => return float x
  | .minus, int n => return int (-n)
  | .minus, float x => return float (-x)
  | .invert, int n => return int (-n - 1)
  | _, _ => failure

/-- The place an index names among `size` items; a negative one counts from the end. -/
def place? (size : Int) (i : Value) : Option Nat :=
  match int32? i with
  | none => none
  | some n =>
      let m := if n < 0 then n + size else n
      if 0 ≤ m && m < size then some m.toNat else none

def index? (s : Store) (x i : Value) : Option Value :=
  match x with
  | dict place => ((s.dictAt place).get? s i).join
  | tuple items => (place? items.length i).bind (items[·]?)
  | list place => (place? (s.listAt place).size i).bind ((s.listAt place)[·]?)
  | string t => ((place? t.length i).bind (t[·]?)).map fun b => string [b]
  | bytes t => ((place? t.length i).bind (t[·]?)).map fun b => bytes [b]
  | range a b c => (place? (rangeLength a b c) i).map (rangeItem a c)
  | view .elems t => ((place? t.length i).bind (t[·]?)).map fun b => string [b]
  | view .elemOrds t => ((place? t.length i).bind (t[·]?)).map fun b => int b.toNat
  | _ => none

def setIndex (x i v : Value) : Run Unit := do
  match x with
  | list place =>
      let items ← Run.openList place
      let k ← Run.ofOption (place? items.size i)
      Run.setList place (items.setIfInBounds k v)
  | dict place =>
      Run.changeDict place fun s d => d.insert? s i v
  | _ => failure

/-- A bound of a slice, if one is given; a negative one counts from the end. -/
def bound? (size default : Int) : Value → Option Int
  | nil => some default
  | v => (int32? v).map fun n => if n < 0 then wrap64 (n + size) else n

def clamp (low high n : Int) : Int := if n < low then low else if high < n then high else n

/-- The first and the end of a part of `size` items that goes forwards. -/
def bounds? (size : Int) (lo hi : Value) : Option (Int × Int) :=
  match bound? size 0 lo, bound? size size hi with
  | some a, some b => some (clamp 0 size a, clamp 0 size b)
  | _, _ => none

def span? (size : Nat) (lo hi : Value) : Option (Nat × Nat) :=
  (bounds? size lo hi).map fun (a, b) => (a.toNat, b.toNat)

def step? : Value → Option Int
  | nil => some 1
  | v => (int32? v).filter (· ≠ 0)

/-- Where a slice of `size` items starts and ends, and its step. -/
def sliceRange? (size : Int) (lo hi step : Value) : Option (Int × Int × Int) :=
  match step? step with
  | none => none
  | some step =>
      if 0 < step then
        (bounds? size lo hi).map fun (a, b) => (a, if b < a then a else b, step)
      else
        let last := wrap64 (size - 1)
        match bound? size last lo, bound? size (-1) hi with
        | some a, some b =>
            let a := if size ≤ a then last else a
            let b := if b < -1 then -1 else b
            some (if a < b then b else a, b, step)
        | _, _ => none

def sliced {α : Type} (items : Array α) (r : Int × Int × Int) : List α :=
  let (start, stop, step) := r
  (List.range (rangeLength start stop step).toNat).filterMap fun (k : Nat) =>
    items[(start + k * step).toNat]?

/-- A slice of a range, with its numbers counted in 64 bits. There is no range whose step wraps
around to zero. -/
def slicedRange (start step : Int) (r : Int × Int × Int) : Run Value :=
  let at_ (i : Int) : Int := wrap64 (start + step * i)
  let new := wrap64 (step * r.2.2)
  if new = 0 then Run.crash else return range (at_ r.1) (at_ r.2.1) new

def slice (x lo hi step : Value) : Run Value := do
  let s ← Run.store
  let some size := (match x with
    | view .. | dict _ => none
    | x => x.length? s) | failure
  let r ← Run.ofOption (sliceRange? size lo hi step)
  match x with
  | string t => return string (sliced t.toArray r)
  | bytes t => return bytes (sliced t.toArray r)
  | tuple items => return tuple (sliced items.toArray r)
  | list place => Run.newList (sliced (s.listAt place) r).toArray
  | range a _ c => slicedRange a c r
  | _ => failure

end Value

end TapeMachine.Expression
