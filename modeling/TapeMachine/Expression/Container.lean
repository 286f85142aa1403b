import TapeMachine.Expression.Operator

/-! The methods of lists and dictionaries. -/

namespace TapeMachine.Expression

namespace ListMethod

def find? (s : Store) (v : Value) : List Value → Option (Option Nat)
  | [] => some none
  | x :: xs =>
      match Value.equal? s x v with
      | none => none
      | some true => some (some 0)
      | some false => (find? s v xs).map fun i => i.map (· + 1)

/-- A list with a value put before the item at an index; beyond the ends, at the end nearest. -/
def inserted (items : Array Value) (i : Int) (v : Value) : Array Value :=
  let i := if i < 0 then i + items.size else i
  let k := (Value.clamp 0 items.size i).toNat
  (items.toList.take k ++ v :: items.toList.drop k).toArray

def extendBy (place : Nat) (v : Value) : Run Unit := do
  let more ← v.items
  let items ← Run.openList place
  Run.setList place (items ++ more.toArray)

def popAt (place : Nat) (i : Int) : Run Value := do
  let s ← Run.store
  let size := (s.listAt place).size
  let i := if i < 0 then i + size else i
  if i < 0 then failure
  let items ← Run.openList place
  match items[i.toNat]? with
  | none => failure
  | some v =>
      Run.setList place (items.toList.eraseIdx i.toNat).toArray
      return v

def call (m : ListMethod) (place : Nat) (args : List Value) : Run Value := do
  match m, args with
  | .append, [v] =>
      let _ ← Run.openList place
      Run.pushItem place v
      return .nil
  | .clear, [] =>
      let _ ← Run.openList place
      Run.setList place #[]
      return .nil
  | .extend, [v] =>
      extendBy place v
      return .nil
  | .insert, [i, v] =>
      let i ← Run.ofOption i.int64?
      let items ← Run.openList place
      Run.setList place (inserted items i v)
      return .nil
  | .pop, [] => popAt place (-1)
  | .pop, [i] => popAt place (← Run.ofOption i.int64?)
  | .remove, [v] =>
      let items ← Run.openList place
      let some i ← Run.ofOption (find? (← Run.store) v items.toList) | failure
      Run.setList place (items.toList.eraseIdx i).toArray
      return .nil
  | .index, v :: bounds => do
      let (lo, hi) ← match bounds with
        | [] => pure (Value.nil, Value.nil)
        | [lo] => pure (lo, Value.nil)
        | [lo, hi] => pure (lo, hi)
        | _ => failure
      let s ← Run.store
      let items := (s.listAt place).toList
      let (a, b) ← Run.ofOption (Value.span? items.length lo hi)
      let some i ← Run.ofOption (find? s v ((items.drop a).take (b - a))) | failure
      return .int (a + i : Nat)
  | _, _ => failure

end ListMethod

namespace DictMethod

def pair (v : Value) : Run (Value × Value) := do
  let s ← Run.store
  if v.length? s ≠ some 2 then failure
  let items ← v.items
  return (items.get 0, items.get 1)

/-- The entries that a value stands for: those of a dictionary, or its items as pairs. A dictionary
that gets them is none of these pairs, since it cannot change while its items are taken. -/
def pairsFor (place : Nat) (v : Value) : Run (List (Value × Value)) := do
  match v with
  | .dict other => return ((← Run.store).dictAt other).pairs
  | v =>
      (← v.items).mapM fun item =>
        match item with
        | .dict other => if other = place then failure else pair item
        | item => pair item

/-- Puts the entries of up to one value, and then named ones, each name once, into a
dictionary. -/
def updateBy (place : Nat) (args : List Value) (named : List (Text × Value)) : Run Unit := do
  let given ← match args with
    | [] => pure []
    | [v] => pairsFor place v
    | _ => failure
  if (named.map (·.1)).eraseDups.length ≠ named.length then failure
  if !given.isEmpty || !named.isEmpty then
    let all := given ++ named.map fun (name, v) => (Value.string name, v)
    Run.changeDict place fun s d => d.insertAll? s all

/-- Takes the entry of a key out of a dictionary, if there is one. -/
def remove? (place : Nat) (key : Value) : Run (Option Value) := do
  let d ← Run.openDict place
  let (v, d) ← Run.ofOption (d.erase? (← Run.store) key)
  Run.setDict place d
  return v

def get? (place : Nat) (key : Value) : Run (Option Value) := do
  let s ← Run.store
  Run.ofOption ((s.dictAt place).get? s key)

/-- Calls a method of the dictionary at a place. Only `update` takes named arguments. -/
def call (m : DictMethod) (place : Nat) (args : List Value) (named : List (Text × Value)) :
    Run Value := do
  if m ≠ .update && !named.isEmpty then failure
  let entries := ((← Run.store).dictAt place).entries
  match m, args with
  | .clear, [] =>
      Run.changeDict place fun _ d => some { d with entries := #[] }
      return .nil
  | .get, [k] => return (← get? place k).getD .nil
  | .get, [k, default] => return (← get? place k).getD default
  | .items, [] => Run.newList (entries.map fun e => .tuple [e.key, e.value])
  | .keys, [] => Run.newList (entries.map (·.key))
  | .values, [] => Run.newList (entries.map (·.value))
  | .pop, [k] =>
      let some v ← remove? place k | failure
      return v
  | .pop, [k, default] => return (← remove? place k).getD default
  | .popitem, [] =>
      match entries[0]? with
      | none => failure
      | some e =>
          let some v ← remove? place e.key | failure
          return .tuple [e.key, v]
  | .setdefault, k :: more =>
      let default ← match more with
        | [] => pure Value.nil
        | [v] => pure v
        | _ => failure
      match ← get? place k with
      | some v => return v
      | none =>
          Run.changeDict place fun s d => d.insert? s k default
          return default
  | .update, args =>
      updateBy place args named
      return .nil
  | _, _ => failure

end DictMethod

end TapeMachine.Expression
