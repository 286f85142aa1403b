import TapeMachine.Expression.Builtin
import TapeMachine.Expression.Grammar
import TapeMachine.Expression.Interpreter

/-! Evaluation of compile-time expressions. An expression is the right-hand side of an assignment
to `rc`, and may refer to named integers, which shadow the names of the language. A function cannot
be called while it is being called, so a bound on the depth of the statements also bounds the depth
of the evaluation. -/

namespace TapeMachine.Expression

/-- Where the frames in force start in the store, from the innermost outwards. -/
abbrev Frames := List Nat

namespace Frames

def place (fs : Frames) (v : Slot) : Nat := fs.getD v.up 0 + v.index

def read (fs : Frames) (v : Slot) : Run Value := do
  match ← Run.object (fs.place v) with
  | .variable (some x) => return x
  | _ => failure

def write (fs : Frames) (v : Slot) (x : Value) : Run Unit :=
  Run.setObject (fs.place v) (.variable (some x))

/-- A new frame: the first variables have values, the others have none yet. -/
def enter (fs : Frames) (size : Nat) (values : List Value) : Run Frames := fun s =>
  let unset := List.replicate (size - values.length) (Object.variable none)
  let frame := values.map (fun v => Object.variable (some v)) ++ unset
  (.done (s.objects.size :: fs), { s with objects := s.objects ++ frame.toArray })

end Frames

namespace Function

/-- Gives the arguments by name to parameters that have none yet, and keeps the others. -/
def takeNamed? (params : List Text) : List (Text × Value) → List (Option Value) →
    Option (List (Option Value) × List (Text × Value))
  | [], slots => some (slots, [])
  | (name, v) :: rest, slots =>
      match params.findIdx? (· = name) with
      | some i =>
          if (slots[i]?.getD none).isSome then none
          else takeNamed? params rest (slots.set i (some v))
      | none => (takeNamed? params rest slots).map fun (slots, others) => (slots, (name, v) :: others)

/-- The values of the parameters, then of `rest` and `others`, for the arguments of a call. -/
def bind (f : Function Slot) (defaults : List (Option Value)) (args : List Value)
    (named : List (Text × Value)) : Run (List Value) := do
  let free := f.params.length - f.namedOnly
  if free < args.length && f.rest.isNone then failure
  let given := (args.take free).map some
  let start := given ++ List.replicate (f.params.length - given.length) none
  let (slots, others) ← Run.ofOption (takeNamed? (f.params.map (·.1)) named start)
  let values ← Run.ofOption ((slots.zip defaults).mapM fun (v, default) => v <|> default)
  let rest := f.rest.toList.map fun _ => Value.tuple (args.drop free)
  match f.others with
  | none => if others.isEmpty then return values ++ rest else failure
  | some _ =>
      if (others.map (·.1)).eraseDups.length ≠ others.length then failure
      let entries := others.map fun (name, v) => (Value.string name, v)
      let d ← Run.ofOption (Dict.insertAll? (← Run.store) {} entries)
      return values ++ rest ++ [← Run.newDict d]

end Function

/-- Says that a function is being called, for as long as a computation takes. -/
def Run.calling {α : Type} (id : Nat) (x : Run α) : Run α := do
  let calls := (← Run.store).calls
  if calls.contains id then failure
  Run.change fun s => { s with calls := id :: calls }
  let a ← x
  Run.change fun s => { s with calls := calls }
  return a

/-- Names and values of the entries of a dictionary whose keys are all texts. -/
def Value.namedEntries (v : Value) : Run (List (Text × Value)) := do
  let .dict place := v | failure
  let entries := ((← Run.store).dictAt place).pairs
  Run.ofOption (entries.mapM fun (k, v) => k.string?.map (·, v))

/-- Changes a value in place where that is possible, and else combines it with another. -/
def Value.update (op : BinaryOp) (x y : Value) : Run Value := do
  match op, x, y with
  | .add, .list place, y =>
      if (y.items? (← Run.store)).isNone then failure
      ListMethod.extendBy place y
      return x
  | .bitOr, .dict place, .dict other =>
      let d ← Run.openDict place
      let s ← Run.store
      Run.setDict place (d.overlay s (s.dictAt other).entries.toList)
      return x
  | op, x, y => x.binary op y

/-! ### Evaluation -/

/-- The bytes of a literal, or of a sum of such literals from left to right. -/
def Expr.literalBytes? : Expr Slot → Option Text
  | .constant (.bytes t) => some t
  | .binary .add a (.constant (.bytes t)) => (literalBytes? a).map (· ++ t)
  | _ => none

/-- How statements end: they run to their end, leave a loop or one turn of it, or give the value
of the function they stand in. -/
inductive Signal where
  | next
  | break_
  | continue_
  | return_ (v : Value)

namespace Signal

/-- How a loop goes on after its body: `none` is the next turn. -/
def afterTurn : Signal → Option Signal
  | next => none
  | continue_ => none
  | break_ => some next
  | return_ v => some (return_ v)

def value : Signal → Value
  | return_ v => v
  | _ => .nil

end Signal

/-- What a comprehension adds to the list or the dictionary at a place. -/
inductive Yield where
  | item (place : Nat) (e : Expr Slot)
  | entry (place : Nat) (key value : Expr Slot)

mutual

def eval : Nat → Frames → Expr Slot → Run Value
  | 0, _, _ => failure
  | fuel + 1, fs, e =>
      match e with
      | .constant c => return Value.ofConstant c
      | .name v => fs.read v
      | .tuple items => return .tuple (← items.mapM (eval fuel fs))
      | .list items => do Run.newList (← items.mapM (eval fuel fs)).toArray
      | .dict entries => do
          let d ← entries.foldlM
            (fun (d : Dict) (k, v) => do
              let k ← eval fuel fs k
              let v ← eval fuel fs v
              let longer ← Run.ofOption (d.insert? (← Run.store) k v)
              if longer.entries.size = d.entries.size then failure
              return longer)
            {}
          Run.newDict d
      | .unary op a => do Value.unary op (← eval fuel fs a)
      | .binary .or a b => do
          let x ← eval fuel fs a
          if ← x.isTrueM then return x else eval fuel fs b
      | .binary .and a b => do
          let x ← eval fuel fs a
          if ← x.isTrueM then eval fuel fs b else return x
      | .binary .add a b => do
          match (Expr.binary .add a b).literalBytes? with
          | some t => return .bytes t
          | none =>
              let x ← eval fuel fs a
              let y ← eval fuel fs b
              x.add y
      | .binary op a b => do
          let x ← eval fuel fs a
          let y ← eval fuel fs b
          x.binary op y
      | .cond c a b => do
          if ← (← eval fuel fs c).isTrueM then eval fuel fs a else eval fuel fs b
      | .call f as => do
          let f ← eval fuel fs f
          let args ← as.positional.mapM (eval fuel fs)
          let named ← as.named.mapM fun (name, e) => return (name, ← eval fuel fs e)
          let items ← as.items.mapM (eval fuel fs)
          let entries ← as.entries.mapM (eval fuel fs)
          let others ← match entries with
            | some v => v.namedEntries
            | none => pure []
          let rest ← match items with
            | some v => do pure (← v.items).toList
            | none => pure []
          call fuel f (args ++ rest) (named ++ others)
      | .index a i => do
          let x ← eval fuel fs a
          let i ← eval fuel fs i
          Run.ofOption (Value.index? (← Run.store) x i)
      | .slice a lo hi step => do
          let x ← eval fuel fs a
          let lo ← lo.mapM (eval fuel fs)
          let hi ← hi.mapM (eval fuel fs)
          let step ← step.mapM (eval fuel fs)
          x.slice (lo.getD .nil) (hi.getD .nil) (step.getD .nil)
      | .attribute a field => do
          let some m ← (← eval fuel fs a).attribute? field | failure
          return m
      | .lambda f => closure fuel fs f
      | .listFor item clauses => do
          let place ← Run.alloc (.list #[] 0)
          loops fuel fs clauses (.item place item)
          return .list place
      | .dictFor key value clauses => do
          let place ← Run.alloc (.dict {} 0)
          loops fuel fs clauses (.entry place key value)
          return .dict place

/-- Runs the loops of a comprehension, and adds to its result in each turn of the innermost. -/
def loops : Nat → Frames → List (Clause Slot) → Yield → Run Unit
  | 0, _, _, _ => failure
  | fuel + 1, fs, clauses, y =>
      match clauses with
      | .for_ t e :: rest => do
          (← eval fuel fs e).withItems fun items =>
            items.forM fun v => do
              assign fuel fs t v
              loops fuel fs rest y
      | .if_ e :: rest => do
          if ← (← eval fuel fs e).isTrueM then loops fuel fs rest y
      | [] =>
          match y with
          | .item place e => do Run.pushItem place (← eval fuel fs e)
          | .entry place key value => do
              let k ← eval fuel fs key
              let v ← eval fuel fs value
              Value.setIndex (.dict place) k v

/-- A function with the frames in force and the values of its defaults. -/
def closure : Nat → Frames → Function Slot → Run Value
  | 0, _, _ => failure
  | fuel + 1, fs, f => do
      let defaults ← f.params.mapM fun (_, e) => e.mapM (eval fuel fs)
      return .function (← Run.alloc (.function f fs defaults))

def call : Nat → Value → List Value → List (Text × Value) → Run Value
  | 0, _, _, _ => failure
  | fuel + 1, v, args, named => do
      match v with
      | .builtin f => f.call (fun f args => call fuel f args []) args named
      | .method place =>
          let .method receiver m ← Run.object place | failure
          receiver.callMethod m args named
      | .function place =>
          let .function f fs defaults ← Run.object place | failure
          Run.calling f.id do
            let fs ← Frames.enter fs f.size (← f.bind defaults args named)
            return (← exec fuel fs f.body).value
      | _ => failure

def assign : Nat → Frames → Target Slot → Value → Run Unit
  | 0, _, _, _ => failure
  | fuel + 1, fs, t, v =>
      match t with
      | .name slot => fs.write slot v
      | .index a i => do
          let x ← eval fuel fs a
          let i ← eval fuel fs i
          x.setIndex i v
      | .attribute .. => failure
      | .several ts => do
          let items ← v.items
          if items.count ≠ ts.length then failure
          (ts.zip items.toList).forM fun (t, v) => assign fuel fs t v

def exec : Nat → Frames → List (Statement Slot) → Run Signal
  | 0, _, _ => failure
  | _ + 1, _, [] => return .next
  | fuel + 1, fs, s :: ss => do
      match ← execOne fuel fs s with
      | .next => exec fuel fs ss
      | signal => return signal

def execOne : Nat → Frames → Statement Slot → Run Signal
  | 0, _, _ => failure
  | fuel + 1, fs, s => do
      match s with
      | .expr e =>
          let _ ← eval fuel fs e
          return .next
      | .assign t e =>
          assign fuel fs t (← eval fuel fs e)
          return .next
      | .update (.name v) op e =>
          let x ← fs.read v
          fs.write v (← x.update op (← eval fuel fs e))
          return .next
      | .update (.index a i) op e =>
          let a ← eval fuel fs a
          let i ← eval fuel fs i
          let x ← Run.ofOption (Value.index? (← Run.store) a i)
          a.setIndex i (← x.update op (← eval fuel fs e))
          return .next
      | .update _ _ _ => failure
      | .define v f =>
          fs.write v (← closure fuel fs f)
          return .next
      | .if_ c yes no =>
          if ← (← eval fuel fs c).isTrueM then exec fuel fs yes else exec fuel fs no
      | .for_ t e body =>
          (← eval fuel fs e).withItems fun items => do
            let signal ← items.firstM fun v => do
              assign fuel fs t v
              return (← exec fuel fs body).afterTurn
            return signal.getD .next
      | .return_ none => return .return_ .nil
      | .return_ (some e) => return .return_ (← eval fuel fs e)
      | .pass => return .next
      | .break_ => return .break_
      | .continue_ => return .continue_

end

/-- Runs statements, and gives the frames of their outermost level. -/
def Script.run (fuel : Nat) (p : Script) : Run Frames := do
  if p.stray then Run.crash
  let fs ← Frames.enter [] p.size []
  let _ ← exec fuel fs p.body
  return fs

def Script.valueOf? (p : Script) (s : Store) (fs : Frames) (name : Text) : Option Value :=
  match p.names.lookup name with
  | none => none
  | some index =>
      match s.objects[fs.place ⟨0, index⟩]? with
      | some (.variable v) => v
      | _ => none

/-- Statements with resolved names, and a bound on the depth of their evaluation. -/
def script? (numbers : Numbers) (t : Text) : Option (Nat × Script) := do
  let ts ← Token.tokens? t
  return (parseFuel ts, ← Script.of? (parseFuel ts) numbers (← parse? ts))

def Value.global : Value → Global
  | int n => .integer n
  | _ => .other

def interpret : Interpreter := fun numbers t =>
  match script? numbers t with
  | none => { globals := .failed }
  | some (fuel, p) =>
      let (frames, s) := p.run fuel {}
      { globals := frames.map fun fs name => (p.valueOf? s fs name).map Value.global
        printed := s.printed }

end TapeMachine.Expression
