import TapeMachine.Expression.Container
import TapeMachine.Expression.TextMethod

/-! The functions of the language. Those that take a function as an argument are given `apply`, which
calls it. -/

namespace TapeMachine.Expression

namespace Value

def methods : Value → List (Text × Method)
  | string _ => Method.ofStrings
  | bytes _ => Method.ofBytes
  | list _ => Method.ofLists
  | dict _ => Method.ofDicts
  | _ => []

def attribute? (v : Value) (name : Text) : Run (Option Value) := do
  match v.methods.lookup name with
  | some m => return some (.method (← Run.alloc (.method v m)))
  | none => return none

def callMethod (receiver : Value) (m : Method) (args : List Value) (named : List (Text × Value)) :
    Run Value := do
  match m, receiver with
  | .string m, string t => m.call t args named
  | .bytesElems, bytes t => if args.isEmpty && named.isEmpty then return view .bytesElems t else failure
  | .list m, list place => if named.isEmpty then m.call place args else failure
  | .dict m, dict place => m.call place args named
  | _, _ => failure

def digits? (base : Nat) (t : Text) : Option Nat :=
  if !t.isEmpty && t.all (fun b => (Text.digitValue? b).any (· < base)) then
    some (valueOfDigits base t)
  else none

/-- The base that digits announce: 2, 8 or 16, if something follows the mark. -/
def announced? : Text → Option (Nat × Text)
  | 0x30 :: mark :: rest@(_ :: _) =>
      if mark = byte 'b' || mark = byte 'B' then some (2, rest)
      else if mark = byte 'o' || mark = byte 'O' then some (8, rest)
      else if mark = byte 'x' || mark = byte 'X' then some (16, rest)
      else none
  | _ => none

/-- A number in a base, or for base 0 in the base it announces: then only zero may start with `0`
and announce none. -/
def magnitudeOf? (base : Nat) (t : Text) : Option Nat :=
  match announced? t with
  | some (b, rest) =>
      if base = 0 || base = b then digits? b rest else digits? base t
  | none =>
      if base = 0 then
        if 1 < t.length && t.head? = some (byte '0') && t.any (· ≠ byte '0') then none
        else digits? 10 t
      else digits? base t

def intOfText? (base : Nat) (t : Text) : Option Int :=
  let (negative, body) := Text.splitSign t
  (magnitudeOf? base body).map fun n => if negative then -(n : Int) else n

def base? (v : Value) : Option Nat :=
  match int32? v with
  | some n => if n = 0 || (2 ≤ n && n ≤ 36) then some n.toNat else none
  | none => none

/-- A value as an integer; only a text may have a base. -/
def toInteger? (x : Value) (base : Option Value) : Option Int :=
  match x, base with
  | string t, none => intOfText? 10 t
  | string t, some b => (base? b).bind fun b => intOfText? b t
  | _, some _ => none
  | bool b, none => some b.toNat
  | x, none => x.toInt?

/-- The floating-point number a text denotes. Names of numbers are written in any case. -/
def floatOfText? (t : Text) : Option Float :=
  let isOne (names : List String) : Bool := (names.map text).contains (Text.upper t)
  if isOne ["INF", "+INF", "INFINITY", "+INFINITY"] then some Number.infinity
  else if isOne ["-INF", "-INFINITY"] then some (-Number.infinity)
  else if isOne ["NAN", "+NAN", "-NAN"] then some Number.notANumber
  else (Number.ofText? t).filter (!·.isInf)

def toFloat? : Value → Option Float
  | bool b => some (if b then 1 else 0)
  | int n => Number.ofInt? n
  | float x => some x
  | string t => floatOfText? t
  | _ => none

def byte? : Value → Option UInt8
  | int n => if 0 ≤ n && n < 256 then some n.toNat.toUInt8 else none
  | _ => none

/-- The polynomial hash of the characters of a text, in 32 bits with sign. -/
def textHash (t : Text) : Int :=
  ((Text.codes t).foldl (fun (h : BitVec 32) c => 31 * h + BitVec.ofNat 32 c) 0).toInt

end Value

namespace Builtin

/-- Gives arguments to parameters: first by position, then by name, none twice. -/
def bind? (params : List Text) (args : List Value) (named : List (Text × Value)) :
    Option (List (Option Value)) :=
  if params.length < args.length then none
  else
    let start := args.map some ++ List.replicate (params.length - args.length) none
    named.foldlM
      (fun slots (name, v) =>
        match params.findIdx? (· = name) with
        | none => none
        | some i => if (slots[i]?.getD none).isSome then none else some (slots.set i (some v)))
      start

/-- Makes sure that there is room for the items of a value whose number is known. -/
def reserveFor (v : Value) : Run Unit := do Run.reserve ((v.length? (← Run.store)).getD 0)

/-- Puts two ordered lists together; of two that are equal the one of the first list comes first.
`fuel` bounds their lengths together. -/
def merge? {α : Type} (less : α → α → Option Bool) : Nat → List α → List α → Option (List α)
  | 0, xs, ys => some (xs ++ ys)
  | _ + 1, [], ys => some ys
  | _ + 1, xs, [] => some xs
  | fuel + 1, x :: xs, y :: ys =>
      match less y x with
      | none => none
      | some true => (merge? less fuel (x :: xs) ys).map (y :: ·)
      | some false => (merge? less fuel xs (y :: ys)).map (x :: ·)

/-- Orders a list; equal items stay in order. `fuel` bounds how often it is halved. -/
def sort? {α : Type} (less : α → α → Option Bool) : Nat → List α → Option (List α)
  | 0, xs => some xs
  | fuel + 1, xs =>
      if xs.length ≤ 1 then some xs
      else
        let (left, right) := xs.splitAt (xs.length / 2)
        match sort? less fuel left, sort? less fuel right with
        | some left, some right => merge? less xs.length left right
        | _, _ => none

/-- The key of an item: what a function gives for it, or the item itself. -/
def keyOf (apply : Value → List Value → Run Value) (key : Option Value) (v : Value) : Run Value :=
  match key with
  | some f => apply f [v]
  | none => return v

def key? : Option Value → Option (Option Value)
  | none => some none
  | some f => if f.isCallable then some (some f) else none

/-- The item whose key no other has a better one than; the first of them. -/
def extreme (apply : Value → List Value → Run Value) (r : Relation) (args : List Value)
    (named : List (Text × Value)) : Run Value := do
  let [key] ← Run.ofOption (bind? [text "key"] [] named) | failure
  let key ← Run.ofOption (key? key)
  let all := match args with
    | [v] => v
    | args => .tuple args
  all.withItems fun items => do
    let best ← items.foldM
      (fun (best : Option (Value × Value)) v => do
        let k ← keyOf apply key v
        match best with
        | none => return some (v, k)
        | some (w, l) =>
            if ← Run.ofOption (Value.compare? (← Run.store) r k l) then return some (v, k)
            else return some (w, l))
      none
    Run.ofOption (best.map (·.1))

def sorted_ (apply : Value → List Value → Run Value) (args : List Value)
    (named : List (Text × Value)) : Run Value := do
  let names := [text "iterable", text "key", text "reverse"]
  let [some v, key, reverse] ← Run.ofOption (bind? names args named) | failure
  let key ← Run.ofOption (key? key)
  let backwards ← match reverse with
    | none => pure false
    | some (.bool b) => pure b
    | some _ => failure
  v.withItems fun items => do
    reserveFor v
    let pairs ← items.mapM fun v => return (v, ← keyOf apply key v)
    let s ← Run.store
    let less (a b : Value × Value) : Option Bool :=
      if backwards then Value.compare? s .lt b.2 a.2 else Value.compare? s .lt a.2 b.2
    let pairs ← Run.ofOption (sort? less pairs.length pairs)
    Run.newList (pairs.map (·.1)).toArray

/-! ### Sequences -/

def zip_ (args : List Value) : Run Value := do
  let columns ← args.mapM Value.items
  let s ← Run.store
  let known : Option (List Int) := args.mapM fun v => v.length? s
  Run.reserve ((known.bind List.min?).getD 0)
  let rows := ((columns.map (·.count)).min?).getD 0
  Run.newList (Array.ofFn fun (i : Fin rows) => Value.tuple (columns.map (·.get i)))

/-- The items of a value after their numbers, which are counted in 64 bits. -/
def enumerate_ (v : Value) (start : Int) : Run Value := do
  let items ← v.items
  reserveFor v
  Run.newList (Array.ofFn fun (i : Fin items.count) =>
    Value.tuple [.int (Value.wrap64 (start + i)), items.get i])

def range_ (args : List Value) : Run Value := do
  match ← args.mapM (fun v => Run.ofOption v.int64?) with
  | [stop] => return .range 0 stop 1
  | [start, stop] => return .range start stop 1
  | [start, stop, step] => if step = 0 then failure else return .range start stop step
  | _ => failure

/-- There is no room for more bytes than this at once. -/
def bytesLimit : Int := 0x1000000000000

def bytes_ (v : Value) : Run Value := do
  match v with
  | .bytes t => return .bytes t
  | .string t => return .bytes (Text.repaired t)
  | v =>
      let items ← v.items
      if bytesLimit < (v.length? (← Run.store)).getD 0 then Run.crash
      return .bytes (← items.mapM fun v => Run.ofOption v.byte?)

def str_ (s : Store) : Value → Value
  | .bytes t => .string (Text.repaired t)
  | v => .string (v.plain s)

/-- A value as it is printed: strings and bytes as they are. -/
def printed (s : Store) : Value → Text
  | .bytes t => t
  | v => v.plain s

def ord_ : Value → Option Value
  | .string t => if (Text.chars t).length = 1 then some (.int (Text.codeOf t)) else none
  | .bytes [b] => some (.int b.toNat)
  | _ => none

def callPlain (f : Builtin) (args : List Value) : Run Value := do
  let s ← Run.store
  match f, args with
  | .abs, [.int n] => return .int n.natAbs
  | .abs, [.float x] => return .float x.abs
  | .all, [v] => return .bool (!(← v.items).any fun v => !v.isTrue s)
  | .any, [v] => return .bool ((← v.items).any fun v => v.isTrue s)
  | .bool, [] => return .bool false
  | .bool, [v] => return .bool (v.isTrue s)
  | .bytes, [v] => bytes_ v
  | .chr, [v] =>
      let n ← Run.ofOption v.int32?
      if 0 ≤ n && n ≤ 0x10FFFF then return .string (Text.encode n.toNat) else failure
  | .dir, [v] => Run.newList (v.methods.map fun m => Value.string m.1).toArray
  | .enumerate, [v] => enumerate_ v 0
  | .enumerate, [v, start] => enumerate_ v (← Run.ofOption start.int64?)
  | .float, [] => return .float 0
  | .float, [v] => return .float (← Run.ofOption v.toFloat?)
  | .getattr, [v, .string name] =>
      let some m ← v.attribute? name | failure
      return m
  | .getattr, [v, .string name, default] => return (← v.attribute? name).getD default
  | .hasattr, [v, .string name] => return .bool (v.methods.lookup name).isSome
  | .hash, [.string t] => return .int (Value.textHash t)
  | .hash, [.bytes t] => return .int (Value.bytesHash t).toNat
  | .len, [v] => return .int (← Run.ofOption ((v.length? s).filter (0 ≤ ·)))
  | .list, [] => Run.newList #[]
  | .list, [v] =>
      reserveFor v
      Run.newList (← v.items).toArray
  | .ord, [v] => Run.ofOption (ord_ v)
  | .range, args => range_ args
  | .repr, [v] => return .string (v.shown s)
  | .reversed, [v] =>
      reserveFor v
      Run.newList (← v.items).toArray.reverse
  | .str, [v] => return str_ s v
  | .tuple, [] => return .tuple []
  | .tuple, [v] =>
      reserveFor v
      return .tuple (← v.items).toList
  | .type, [v] => return .string v.kind
  | .zip, args => zip_ args
  | _, _ => failure

def call (apply : Value → List Value → Run Value) (f : Builtin) (args : List Value)
    (named : List (Text × Value)) : Run Value := do
  match f with
  | .dict =>
      let v ← Run.newDict {}
      let .dict place := v | failure
      DictMethod.updateBy place args named
      return v
  | .int =>
      let [some x, base] ← Run.ofOption (bind? [text "x", text "base"] args named) | failure
      return .int (← Run.ofOption (x.toInteger? base))
  | .max => if args.isEmpty then failure else extreme apply .gt args named
  | .min => if args.isEmpty then failure else extreme apply .lt args named
  | .print =>
      let [sep] ← Run.ofOption (bind? [text "sep"] [] named) | failure
      let .string sep := sep.getD (.string (text " ")) | failure
      let s ← Run.store
      Run.print (sep.intercalate (args.map (printed s)))
      return .nil
  | .sorted => sorted_ apply args named
  | f => if named.isEmpty then callPlain f args else failure

end Builtin

end TapeMachine.Expression
