import TapeMachine.Expression.Method
import TapeMachine.Expression.Number
import TapeMachine.Expression.Outcome
import TapeMachine.Expression.Scope

/-! Values of compile-time expressions. Integers are unbounded, and truth values are not numbers.
Lists, dictionaries, functions and variables are kept in a store and can be shared; a list or a
dictionary that is being gone through cannot be changed. -/

namespace TapeMachine.Expression

/-- What is gone through of a text: its bytes or its characters, as texts or as numbers. -/
inductive View where
  | elems
  | elemOrds
  | codepoints
  | codepointOrds
  | bytesElems
  deriving DecidableEq, Repr

inductive Value where
  | nil
  | bool (b : Bool)
  | int (n : Int)
  | float (x : Float)
  | string (t : Text)
  | bytes (t : Text)
  | tuple (items : List Value)
  | range (start stop step : Int)
  | view (v : View) (t : Text)
  | builtin (f : Builtin)
  /-- These are in the store, at a place. -/
  | list (place : Nat)
  | dict (place : Nat)
  | function (place : Nat)
  | method (place : Nat)

instance : Inhabited Value := ⟨.nil⟩

/-- An entry of a dictionary, with the hash of its key. -/
structure Entry where
  hash : UInt32
  key : Value
  value : Value

/-- The entries of a dictionary, in the order in which their keys came in. Before the first of them
came it is unused, and a key to be taken out is not even looked at. -/
structure Dict where
  entries : Array Entry := #[]
  used : Bool := false

inductive Object where
  | variable (value : Option Value)
  | list (items : Array Value) (readers : Nat)
  | dict (d : Dict) (readers : Nat)
  /-- A function with the frames of the functions around it, and the defaults of its parameters. -/
  | function (f : Function Slot) (frames : List Nat) (defaults : List (Option Value))
  | method (receiver : Value) (m : Method)

instance : Inhabited Object := ⟨.variable none⟩

/-- All objects, the functions that are being called, and what has been printed. -/
structure Store where
  objects : Array Object := #[]
  calls : List Nat := []
  printed : Text := []

/-- A computation on the store that may fail. The store is kept however it ends. -/
def Run (α : Type) : Type := Store → Outcome α × Store

namespace Store

def listAt (s : Store) (place : Nat) : Array Value :=
  match s.objects[place]? with
  | some (.list items _) => items
  | _ => #[]

def dictAt (s : Store) (place : Nat) : Dict :=
  match s.objects[place]? with
  | some (.dict d _) => d
  | _ => {}

def nameAt (s : Store) (place : Nat) : Text :=
  match s.objects[place]? with
  | some (.function f _ _) => f.name
  | some (.method _ m) => m.name
  | _ => []

end Store

namespace Run

def bind {α β : Type} (x : Run α) (f : α → Run β) : Run β := fun s =>
  match x s with
  | (.done a, s) => f a s
  | (.failed, s) => (.failed, s)
  | (.crashed, s) => (.crashed, s)

instance : Monad Run where
  pure a := fun s => (.done a, s)
  bind := bind

/-- The second computation goes on where the first one fails. -/
def orElse {α : Type} (x : Run α) (y : Unit → Run α) : Run α := fun s =>
  match x s with
  | (.failed, s) => y () s
  | end_ => end_

instance : Alternative Run where
  failure := fun s => (.failed, s)
  orElse := orElse

/-- What no computation goes on after. -/
def crash {α : Type} : Run α := fun s => (.crashed, s)

def ofOption {α : Type} (x : Option α) : Run α := fun s => (.ofOption x, s)

def store : Run Store := fun s => (.done s, s)

def change (f : Store → Store) : Run Unit := fun s => (.done (), f s)

/-- There is no room for more items than this at once. -/
def roomLimit : Int := 0x100000000000

def reserve (count : Int) : Run Unit := if roomLimit < count then crash else return ()

def print (t : Text) : Run Unit := change fun s => { s with printed := s.printed ++ t ++ [10] }

/-- Puts a new object into the store, and gives its place. -/
def alloc (o : Object) : Run Nat := fun s =>
  (.done s.objects.size, { s with objects := s.objects.push o })

def object (place : Nat) : Run Object := do ofOption (← store).objects[place]?

def setObject (place : Nat) (o : Object) : Run Unit :=
  change fun s => { s with objects := s.objects.setIfInBounds place o }

def modifyObject (place : Nat) (f : Object → Object) : Run Unit :=
  change fun s => { s with objects := s.objects.modify place f }

def newList (items : Array Value) : Run Value := return .list (← alloc (.list items 0))

def newDict (d : Dict) : Run Value := return .dict (← alloc (.dict d 0))

/-- The items of a list that may be changed now. -/
def openList (place : Nat) : Run (Array Value) := do
  match ← object place with
  | .list items 0 => return items
  | _ => failure

def setList (place : Nat) (items : Array Value) : Run Unit := setObject place (.list items 0)

/-- A dictionary that may be changed now. -/
def openDict (place : Nat) : Run Dict := do
  match ← object place with
  | .dict d 0 => return d
  | _ => failure

def setDict (place : Nat) (d : Dict) : Run Unit := setObject place (.dict d 0)

/-- Changes a dictionary that may be changed now. Its place is empty meanwhile, so that its entries
need not be copied. -/
def changeDict (place : Nat) (f : Store → Dict → Option Dict) : Run Unit := do
  let d ← openDict place
  setObject place (.variable none)
  let s ← store
  setDict place (← ofOption (f s d))

def pushItem (place : Nat) (v : Value) : Run Unit :=
  modifyObject place fun
    | .list items readers => .list (items.push v) readers
    | o => o

end Run

namespace Value

def ofConstant : Constant → Value
  | .nil => nil
  | .bool b => bool b
  | .int n => int n
  | .float x => float x
  | .string t => string t
  | .bytes t => bytes t
  | .function f => builtin f

def kind : Value → Text
  | nil => text "NoneType"
  | bool _ => text "bool"
  | int _ => text "int"
  | float _ => text "float"
  | string _ => text "string"
  | bytes _ => text "bytes"
  | tuple _ => text "tuple"
  | range .. => text "range"
  | view .elems _ | view .elemOrds _ => text "string.elems"
  | view .codepoints _ | view .codepointOrds _ => text "string.codepoints"
  | view .bytesElems _ => text "bytes.elems"
  | builtin _ => text "builtin_function_or_method"
  | method _ => text "builtin_function_or_method"
  | list _ => text "list"
  | dict _ => text "dict"
  | function _ => text "function"

/-- A number between the least and the greatest of 64 bits, wrapped around if it is beyond. -/
def wrap64 (n : Int) : Int := n.bmod 0x10000000000000000

/-- How many numbers a range has, counted in 64 bits with sign: for a range over more than half of
these the count wraps around and is negative, and there is no number to go through. -/
def rangeLength (start stop step : Int) : Int :=
  if 0 < step then
    if start < stop then wrap64 ((wrap64 (stop - 1 - start)).tdiv step + 1) else 0
  else
    if stop < start then wrap64 ((wrap64 (start - 1 - stop)).tdiv (wrap64 (-step)) + 1) else 0

def rangeItem (start step : Int) (i : Nat) : Value := int (wrap64 (start + i * step))

def isTrue (s : Store) : Value → Bool
  | nil => false
  | bool b => b
  | int n => n ≠ 0
  | float x => x != 0
  | string t => !t.isEmpty
  | bytes t => !t.isEmpty
  | tuple items => !items.isEmpty
  | range a b c => 0 < rangeLength a b c
  | list place => !(s.listAt place).isEmpty
  | dict place => !(s.dictAt place).entries.isEmpty
  | view .. | builtin _ | function _ | method _ => true

/-- How many items a value has, if that is known. -/
def length? (s : Store) : Value → Option Int
  | string t => some t.length
  | bytes t => some t.length
  | tuple items => some items.length
  | range a b c => some (rangeLength a b c)
  | view .elems t => some t.length
  | view .elemOrds t => some t.length
  | list place => some (s.listAt place).size
  | dict place => some (s.dictAt place).entries.size
  | _ => none

structure Items where
  count : Nat
  get : Nat → Value

namespace Items

def ofArray (a : Array Value) : Items := ⟨a.size, fun i => a.getD i nil⟩

def ofList (l : List Value) : Items := ofArray l.toArray

def toArray (i : Items) : Array Value := Array.ofFn fun (n : Fin i.count) => i.get n

def toList (i : Items) : List Value := i.toArray.toList

/-- Goes through the last `left` items. -/
def foldFrom {α : Type} (i : Items) (f : α → Value → Run α) : Nat → α → Run α
  | 0, a => return a
  | left + 1, a => do
      let a ← f a (i.get (i.count - (left + 1)))
      foldFrom i f left a

def foldM {α : Type} (i : Items) (f : α → Value → Run α) (a : α) : Run α := foldFrom i f i.count a

def forM (i : Items) (f : Value → Run Unit) : Run Unit := i.foldM (fun _ v => f v) ()

def mapM {α : Type} (i : Items) (f : Value → Run α) : Run (List α) :=
  return (← i.foldM (fun (acc : Array α) v => return acc.push (← f v)) #[]).toList

/-- Goes through the last `left` items until something comes of one. -/
def firstFrom {α : Type} (i : Items) (f : Value → Run (Option α)) : Nat → Run (Option α)
  | 0 => return none
  | left + 1 => do
      match ← f (i.get (i.count - (left + 1))) with
      | some a => return some a
      | none => firstFrom i f left

def firstM {α : Type} (i : Items) (f : Value → Run (Option α)) : Run (Option α) :=
  firstFrom i f i.count

/-- Whether one of the last `left` items has a property. -/
def anyFrom (i : Items) (p : Value → Bool) : Nat → Bool
  | 0 => false
  | left + 1 => p (i.get (i.count - (left + 1))) || anyFrom i p left

def any (i : Items) (p : Value → Bool) : Bool := anyFrom i p i.count

end Items

def viewItems (t : Text) : View → Items
  | .elems => .ofList (t.map fun b => string [b])
  | .elemOrds => .ofList (t.map fun b => int b.toNat)
  | .codepoints => .ofList ((Text.codes t).map fun c => string (Text.encode c))
  | .codepointOrds => .ofList ((Text.codes t).map fun (c : Nat) => int c)
  | .bytesElems => .ofList (t.map fun b => int b.toNat)

/-- The items of a value that has some. Texts have none unless a view is asked for. -/
def items? (s : Store) : Value → Option Items
  | tuple items => some (.ofList items)
  | range a b c => some ⟨(rangeLength a b c).toNat, rangeItem a c⟩
  | view v t => some (viewItems t v)
  | list place => some (.ofArray (s.listAt place))
  | dict place => some (.ofArray ((s.dictAt place).entries.map (·.key)))
  | _ => none

def items (v : Value) : Run Items := do Run.ofOption (v.items? (← Run.store))

def isTrueM (v : Value) : Run Bool := return v.isTrue (← Run.store)

/-- Notes that a list or a dictionary is gone through once more, or once less. -/
def addReader (more : Bool) : Value → Run Unit
  | list place => Run.modifyObject place fun
      | .list items readers => .list items (if more then readers + 1 else readers - 1)
      | o => o
  | dict place => Run.modifyObject place fun
      | .dict d readers => .dict d (if more then readers + 1 else readers - 1)
      | o => o
  | _ => return ()

/-- Does something with the items of a value, which cannot be changed meanwhile. -/
def withItems {α : Type} (v : Value) (f : Items → Run α) : Run α := do
  let items ← v.items
  v.addReader true
  let a ← f items
  v.addReader false
  return a

def int32? : Value → Option Int
  | int n => if -0x80000000 ≤ n && n < 0x80000000 then some n else none
  | _ => none

def int64? : Value → Option Int
  | int n => if -0x8000000000000000 ≤ n && n < 0x8000000000000000 then some n else none
  | _ => none

def string? : Value → Option Text
  | string t => some t
  | _ => none

/-- An integer, or a finite floating-point number without its fraction. -/
def toInt? : Value → Option Int
  | int n => some n
  | float x => Number.toInt? x
  | _ => none

def isCallable : Value → Bool
  | builtin _ | function _ | method _ => true
  | _ => false

end Value

end TapeMachine.Expression
