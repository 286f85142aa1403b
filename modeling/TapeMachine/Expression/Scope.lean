import TapeMachine.Expression.Interpreter
import TapeMachine.Expression.Tree

/-! What names refer to. A name that a function binds anywhere is a variable of that function all
over its body; the loops of a comprehension bind names for the comprehension alone; every other
name is a variable further out, a named number, or a name of the language. Every name must be
known, also where it is not evaluated. At the outermost level a name is bound only once, and there
are no loops and no branches. -/

namespace TapeMachine.Expression

/-- A variable: how many functions further out its frame is, and its place there. -/
structure Slot where
  up : Nat
  index : Nat
  deriving DecidableEq, Repr

def Constant.named? (name : Text) : Option Constant :=
  if name = text "None" then some nil
  else if name = text "True" then some (bool true)
  else if name = text "False" then some (bool false)
  else (Builtin.named.lookup name).map function

/-- The names in force: those of the frames from the innermost outwards, and named numbers. In a
frame the names of inner blocks come first. -/
structure Scope where
  numbers : Numbers
  frames : List (List (Text × Nat))

namespace Scope

/-- The variable of a name, among frames that are `up` functions further out. -/
def slotFrom? (name : Text) : Nat → List (List (Text × Nat)) → Option Slot
  | _, [] => none
  | up, frame :: outer =>
      match frame.lookup name with
      | some index => some ⟨up, index⟩
      | none => slotFrom? name (up + 1) outer

def slot? (s : Scope) (name : Text) : Option Slot := slotFrom? name 0 s.frames

def constant? (s : Scope) (name : Text) : Option Constant :=
  match s.numbers name with
  | some n => some (.int n)
  | none => Constant.named? name

/-- Adds names to the innermost frame, in front of those it has. -/
def extend (s : Scope) (names : List (Text × Nat)) : Scope :=
  match s.frames with
  | frame :: outer => { s with frames := (names ++ frame) :: outer }
  | [] => { s with frames := [names] }

end Scope

/-- Variables of the current frame so far, functions seen so far, and whether there was a stray
`break` or `continue`: one in a loop around the function it stands in, and in none inside. -/
structure Count where
  slots : Nat := 0
  functions : Nat := 0
  stray : Bool := false

abbrev Resolve := StateT Count Option

def Target.names : Nat → Target Text → List Text
  | 0, _ => []
  | fuel + 1, t =>
      match t with
      | .name v => [v]
      | .several ts => ts.flatMap (Target.names fuel)
      | _ => []

/-- The names a statement binds, in the blocks it holds too; `fuel` bounds its depth. -/
def Statement.names : Nat → Statement Text → List Text
  | 0, _ => []
  | fuel + 1, s =>
      match s with
      | .assign t _ => t.names fuel
      | .update t _ _ => t.names fuel
      | .define name _ => [name]
      | .if_ _ yes no => (yes ++ no).flatMap (Statement.names fuel)
      | .for_ t _ body => t.names fuel ++ body.flatMap (Statement.names fuel)
      | _ => []

def Clause.names (fuel : Nat) : Clause Text → List Text
  | .for_ t _ => t.names fuel
  | .if_ _ => []

namespace Scope

def bind (s : Scope) (names : List Text) : Resolve Scope := do
  let c ← get
  let names := names.eraseDups
  set { c with slots := c.slots + names.length }
  return s.extend (names.zip (List.range' c.slots names.length))

/-! ### Replacing names

`fuel` bounds the depth of a tree. -/

/-- Where a statement stands: in a function, in a loop there, and in a loop around the function. -/
structure Within where
  function : Bool := false
  loop : Bool := false
  outerLoop : Bool := false

def leaveLoop (w : Within) : Resolve Unit := do
  if !w.loop then
    if !w.outerLoop then failure
    modify fun c => { c with stray := true }

mutual

def expr : Nat → Scope → Expr Text → Resolve (Expr Slot)
  | 0, _, _ => failure
  | fuel + 1, s, e =>
      match e with
      | .constant c => return .constant c
      | .name v =>
          match s.slot? v with
          | some slot => return .name slot
          | none =>
              match s.constant? v with
              | some c => return .constant c
              | none => failure
      | .tuple items => return .tuple (← items.mapM (expr fuel s))
      | .list items => return .list (← items.mapM (expr fuel s))
      | .dict entries =>
          return .dict (← entries.mapM fun (k, v) => return (← expr fuel s k, ← expr fuel s v))
      | .unary op a => return .unary op (← expr fuel s a)
      | .binary op a b => return .binary op (← expr fuel s a) (← expr fuel s b)
      | .cond c a b => return .cond (← expr fuel s c) (← expr fuel s a) (← expr fuel s b)
      | .call f as => do
          let f ← expr fuel s f
          let positional ← as.positional.mapM (expr fuel s)
          let named ← as.named.mapM fun (name, e) => return (name, ← expr fuel s e)
          let items ← as.items.mapM (expr fuel s)
          let entries ← as.entries.mapM (expr fuel s)
          return .call f ⟨positional, named, items, entries⟩
      | .index a i => return .index (← expr fuel s a) (← expr fuel s i)
      | .slice a lo hi step => do
          let a ← expr fuel s a
          let lo ← lo.mapM (expr fuel s)
          let hi ← hi.mapM (expr fuel s)
          let step ← step.mapM (expr fuel s)
          return .slice a lo hi step
      | .attribute a field => return .attribute (← expr fuel s a) field
      | .lambda f => return .lambda (← function fuel s false f)
      | .listFor item clauses => do
          let (s, clauses) ← comprehension fuel s clauses
          return .listFor (← expr fuel s item) clauses
      | .dictFor k v clauses => do
          let (s, clauses) ← comprehension fuel s clauses
          return .dictFor (← expr fuel s k) (← expr fuel s v) clauses

/-- The clauses of a comprehension, and the names in force in it. What its first loop runs over
stands outside. -/
def comprehension : Nat → Scope → List (Clause Text) → Resolve (Scope × List (Clause Slot))
  | 0, _, _ => failure
  | fuel + 1, s, clauses =>
      match clauses with
      | .for_ t e :: rest => do
          let e ← expr fuel s e
          let s ← s.bind (clauses.flatMap (Clause.names fuel))
          let t ← target fuel s t
          let rest ← rest.mapM fun
            | .for_ t e => return .for_ (← target fuel s t) (← expr fuel s e)
            | .if_ e => return .if_ (← expr fuel s e)
          return (s, .for_ t e :: rest)
      | _ => failure

def target : Nat → Scope → Target Text → Resolve (Target Slot)
  | 0, _, _ => failure
  | fuel + 1, s, t =>
      match t with
      | .name v =>
          match s.slot? v with
          | some slot => return .name slot
          | none => failure
      | .index a i => return .index (← expr fuel s a) (← expr fuel s i)
      | .attribute a field => return .attribute (← expr fuel s a) field
      | .several ts => return .several (← ts.mapM (target fuel s))

/-- A function, in a loop or not. Its defaults stand outside, and its body has a frame of its
own. -/
def function : Nat → Scope → Bool → Function Text → Resolve (Function Slot)
  | 0, _, _, _ => failure
  | fuel + 1, s, inLoop, f => do
      let params ← f.params.mapM fun (name, e) => return (name, ← e.mapM (expr fuel s))
      let outer ← get
      set { outer with slots := 0, functions := outer.functions + 1 }
      let given := f.params.map (·.1) ++ f.rest.toList ++ f.others.toList
      let inner ← bind { s with frames := [] :: s.frames }
        (given ++ f.body.flatMap (Statement.names fuel))
      let body ← f.body.mapM (statement fuel inner { function := true, outerLoop := inLoop })
      let c ← get
      set { c with slots := outer.slots }
      return {
        id := outer.functions, name := f.name, params := params, namedOnly := f.namedOnly
        rest := f.rest, others := f.others, body := body, size := c.slots }

def statement : Nat → Scope → Within → Statement Text → Resolve (Statement Slot)
  | 0, _, _, _ => failure
  | fuel + 1, s, w, st =>
      match st with
      | .expr e => return .expr (← expr fuel s e)
      | .assign t e => do
          let e ← expr fuel s e
          return .assign (← target fuel s t) e
      | .update t op e => do
          let e ← expr fuel s e
          return .update (← target fuel s t) op e
      | .define name f =>
          match s.slot? name with
          | some slot => return .define slot (← function fuel s (w.loop || w.outerLoop) f)
          | none => failure
      | .if_ c yes no => do
          if !w.function then failure
          let c ← expr fuel s c
          let yes ← yes.mapM (statement fuel s w)
          let no ← no.mapM (statement fuel s w)
          return .if_ c yes no
      | .for_ t e body => do
          if !w.function then failure
          let e ← expr fuel s e
          let t ← target fuel s t
          let body ← body.mapM (statement fuel s { w with loop := true })
          return .for_ t e body
      | .return_ e => do
          if !w.function then failure
          return .return_ (← e.mapM (expr fuel s))
      | .pass => return .pass
      | .break_ => do
          leaveLoop w
          return .break_
      | .continue_ => do
          leaveLoop w
          return .continue_

end

end Scope

/-- Statements whose names are all resolved. Their frame holds `size` variables, and `names` says
which are bound at the outermost level. Those with a stray `break` or `continue` cannot be run. -/
structure Script where
  body : List (Statement Slot)
  size : Nat
  names : List (Text × Nat)
  stray : Bool

/-- Resolves the names of some statements, where numbers with names are known; `fuel` bounds the
depth of the statements. -/
def Script.of? (fuel : Nat) (numbers : Numbers) (ss : List (Statement Text)) :
    Option Script := do
  let bound := ss.flatMap (Statement.names fuel)
  if bound.eraseDups.length ≠ bound.length then failure
  let (s, c) ← (Scope.bind ⟨numbers, [[]]⟩ bound).run {}
  let (body, c) ← (ss.mapM (Scope.statement fuel s {})).run c
  return { body := body, size := c.slots, names := s.frames.headD [], stray := c.stray }

end TapeMachine.Expression
