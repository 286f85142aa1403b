import TapeMachine.Expression.Token
import TapeMachine.Expression.Tree

/-! The grammar of compile-time expressions and statements. From the loosest to the tightest, the
operators are `or`, `and`, `not`, comparisons and membership (which do not chain), `|`, `^`, `&`,
shifts, sums, products, and signs; `a if c else b` and functions are looser than all of them.
Binary operators group to the left. -/

namespace TapeMachine.Expression

def BinaryOp.level : BinaryOp → Nat
  | or => 0
  | and => 1
  | eq | ne | lt | gt | le | ge | in_ | notIn => 3
  | bitOr => 4
  | bitXor => 5
  | bitAnd => 6
  | shl | shr => 7
  | add | sub => 8
  | mul | mod | div | floorDiv => 9

/-- The level of `not`, and that of the comparisons above it. -/
def notLevel : Nat := 2

def comparisonLevel : Nat := 3

/-- The level of signs and all that binds tighter. -/
def signLevel : Nat := 10

/-- The operation of a symbol that a target can be updated by. -/
def arithmetic? : Symbol → Option BinaryOp
  | .pipe => some .bitOr
  | .caret => some .bitXor
  | .amp => some .bitAnd
  | .shl => some .shl
  | .shr => some .shr
  | .plus => some .add
  | .minus => some .sub
  | .star => some .mul
  | .percent => some .mod
  | .slash => some .div
  | .floorSlash => some .floorDiv
  | _ => none

def binaryOp? : List Token → Option (BinaryOp × List Token)
  | .keyword .or :: ts => some (.or, ts)
  | .keyword .and :: ts => some (.and, ts)
  | .keyword .in_ :: ts => some (.in_, ts)
  | .keyword .not :: .keyword .in_ :: ts => some (.notIn, ts)
  | .symbol .eq :: ts => some (.eq, ts)
  | .symbol .ne :: ts => some (.ne, ts)
  | .symbol .lt :: ts => some (.lt, ts)
  | .symbol .gt :: ts => some (.gt, ts)
  | .symbol .le :: ts => some (.le, ts)
  | .symbol .ge :: ts => some (.ge, ts)
  | .symbol s :: ts => (arithmetic? s).map (·, ts)
  | _ => none

def sign? : List Token → Option (UnaryOp × List Token)
  | .symbol .plus :: ts => some (.plus, ts)
  | .symbol .minus :: ts => some (.minus, ts)
  | .symbol .tilde :: ts => some (.invert, ts)
  | _ => none

def atom? : List Token → Option (Expr Text × List Token)
  | .int n :: ts => some (.constant (.int n), ts)
  | .float x :: ts => some (.constant (.float x), ts)
  | .string t :: ts => some (.constant (.string t), ts)
  | .bytes t :: ts => some (.constant (.bytes t), ts)
  | .name t :: ts => some (.name t, ts)
  | _ => none

def expect? (s : Symbol) : List Token → Option (List Token)
  | .symbol s' :: ts => if s' = s then some ts else none
  | _ => none

def startsWith (s : Symbol) (ts : List Token) : Bool := (expect? s ts).isSome

/-- No further member of a tuple can start here. -/
def endsTuple : List Token → Bool
  | [] => true
  | .lineEnd :: _ => true
  | .symbol .assign :: _ => true
  | .symbol .semicolon :: _ => true
  | .symbol .rparen :: _ => true
  | .symbol .rbrack :: _ => true
  | .symbol .rbrace :: _ => true
  | _ => false

inductive Param where
  | plain (name : Text)
  | optional (name : Text) (default : Expr Text)
  /-- What takes the arguments beyond those by position; only a border if it has no name. -/
  | rest (name : Option Text)
  /-- What takes the arguments with other names. -/
  | others (name : Text)

structure Signature where
  params : List (Text × Option (Expr Text)) := []
  namedOnly : Nat := 0
  border : Bool := false
  rest : Option Text := none
  others : Option Text := none

namespace Signature

def names (s : Signature) : List Text := s.params.map (·.1) ++ s.rest.toList ++ s.others.toList

def push (s : Signature) (name : Text) (default : Option (Expr Text)) : Signature :=
  { s with
    params := s.params ++ [(name, default)]
    namedOnly := if s.border then s.namedOnly + 1 else s.namedOnly }

/-- Adds a parameter. Nothing follows `others`, and only past the border may a parameter without a
default follow one with a default. -/
def add? (s : Signature) (p : Param) : Option Signature :=
  if s.others.isSome then none
  else match p with
    | .plain name =>
        if !s.border && s.params.any (·.2.isSome) then none
        else some (s.push name none)
    | .optional name e => some (s.push name (some e))
    | .rest name => if s.border then none else some { s with border := true, rest := name }
    | .others name => some { s with others := some name }

/-- The shape of a function with some parameters. Their names differ, and a border without a name
has parameters after it. -/
def of? (ps : List Param) : Option Signature := do
  let s ← ps.foldlM add? {}
  if s.names.eraseDups.length ≠ s.names.length then none
  else if s.border && s.rest.isNone && s.namedOnly = 0 then none
  else some s

def function (s : Signature) (name : Text) (body : List (Statement Text)) : Function Text where
  id := 0
  name := name
  params := s.params
  namedOnly := s.namedOnly
  rest := s.rest
  others := s.others
  body := body
  size := 0

end Signature

inductive Arg where
  | positional (e : Expr Text)
  | named (name : Text) (e : Expr Text)
  | items (e : Expr Text)
  | entries (e : Expr Text)

namespace Arg

/-- Adds an argument. The kinds come in a fixed order, and no name twice. -/
def add? (as : Args Text) : Arg → Option (Args Text)
  | positional e =>
      if as.named.isEmpty && as.items.isNone && as.entries.isNone then
        some { as with positional := as.positional ++ [e] }
      else none
  | named name e =>
      if as.items.isNone && as.entries.isNone && !as.named.any (·.1 = name) then
        some { as with named := as.named ++ [(name, e)] }
      else none
  | items e =>
      if as.items.isNone && as.entries.isNone then some { as with items := some e } else none
  | entries e => if as.entries.isNone then some { as with entries := some e } else none

/-- At most this many arguments are written by position, and by name. -/
def limit : Nat := 255

def all? (as : List Arg) : Option (Args Text) := do
  let args ← as.foldlM add? ⟨[], [], none, none⟩
  if args.positional.length ≤ limit && args.named.length ≤ limit then some args else none

end Arg

/-- The target that an expression names; `fuel` bounds its depth. -/
def target? : Nat → Expr Text → Option (Target Text)
  | 0, _ => none
  | fuel + 1, e =>
      match e with
      | .name v => some (.name v)
      | .index a i => some (.index a i)
      | .attribute a field => some (.attribute a field)
      | .tuple items => (items.mapM (target? fuel)).map .several
      | .list items => (items.mapM (target? fuel)).map .several
      | _ => none

/-! ### Expressions

Each function takes the tokens and gives what it read with the tokens that follow. Every call
spends one unit of fuel. -/

mutual

/-- A function, a conditional if one may stand here, or anything tighter. -/
def test? : Nat → Bool → List Token → Option (Expr Text × List Token)
  | 0, _, _ => none
  | fuel + 1, conditional, ts =>
      match ts with
      | .keyword .lambda :: ts => do
          let (ps, ts) ← params? fuel true ts
          let s ← Signature.of? ps
          let ts ← expect? .colon ts
          let (body, ts) ← test? fuel conditional ts
          return (.lambda (s.function (text "lambda") [.return_ (some body)]), ts)
      | ts => do
          let (a, ts) ← level? fuel 0 ts
          match conditional, ts with
          | true, .keyword .if_ :: ts => do
              let (c, ts) ← level? fuel 0 ts
              match ts with
              | .keyword .else_ :: ts => do
                  let (b, ts) ← test? fuel true ts
                  return (.cond c a b, ts)
              | _ => none
          | _, ts => return (a, ts)

def level? : Nat → Nat → List Token → Option (Expr Text × List Token)
  | 0, _, _ => none
  | fuel + 1, level, ts =>
      if signLevel ≤ level then signed? fuel ts
      else match decide (level = notLevel), ts with
        | true, .keyword .not :: ts => do
            let (a, ts) ← level? fuel level ts
            return (.unary .not a, ts)
        | _, ts => do
            let (a, ts) ← level? fuel (level + 1) ts
            operators? fuel level true a ts

/-- What follows the left operand `a` at a level. Comparisons do not chain. -/
def operators? : Nat → Nat → Bool → Expr Text → List Token → Option (Expr Text × List Token)
  | 0, _, _, _, _ => none
  | fuel + 1, level, first, a, ts =>
      match binaryOp? ts with
      | none => some (a, ts)
      | some (op, rest) =>
          if op.level < level then some (a, ts)
          else if !first && op.level = comparisonLevel then none
          else do
            let (b, ts) ← level? fuel (op.level + 1) rest
            operators? fuel level false (.binary op a b) ts

def signed? : Nat → List Token → Option (Expr Text × List Token)
  | 0, _ => none
  | fuel + 1, ts =>
      match sign? ts with
      | some (op, ts) => do
          let (a, ts) ← signed? fuel ts
          return (.unary op a, ts)
      | none => do
          let (a, ts) ← primary? fuel ts
          suffixes? fuel a ts

def primary? : Nat → List Token → Option (Expr Text × List Token)
  | 0, _ => none
  | fuel + 1, ts =>
      match ts with
      | .symbol .lparen :: .symbol .rparen :: ts => some (.tuple [], ts)
      | .symbol .lparen :: ts => do
          let (a, ts) ← exprs? fuel true ts
          return (a, ← expect? .rparen ts)
      | .symbol .lbrack :: .symbol .rbrack :: ts => some (.list [], ts)
      | .symbol .lbrack :: ts => do
          let (a, ts) ← test? fuel true ts
          match ts with
          | .keyword .for_ :: _ => do
              let (cs, ts) ← clauses? fuel .rbrack ts
              return (.listFor a cs, ts)
          | ts => do
              let (items, ts) ← moreExprs? fuel true ts
              return (.list (a :: items), ← expect? .rbrack ts)
      | .symbol .lbrace :: .symbol .rbrace :: ts => some (.dict [], ts)
      | .symbol .lbrace :: ts => do
          let (k, v, ts) ← entry? fuel ts
          match ts with
          | .keyword .for_ :: _ => do
              let (cs, ts) ← clauses? fuel .rbrace ts
              return (.dictFor k v cs, ts)
          | ts => do
              let (entries, ts) ← moreEntries? fuel ts
              return (.dict ((k, v) :: entries), ts)
      | ts => atom? ts

def suffixes? : Nat → Expr Text → List Token → Option (Expr Text × List Token)
  | 0, _, _ => none
  | fuel + 1, a, ts =>
      match ts with
      | .symbol .dot :: .name field :: ts => suffixes? fuel (.attribute a field) ts
      | .symbol .dot :: _ => none
      | .symbol .lparen :: ts => do
          let (as, ts) ← args? fuel true ts
          let args ← Arg.all? as
          suffixes? fuel (.call a args) ts
      | .symbol .lbrack :: .symbol .colon :: ts => do
          let (hi, step, ts) ← sliceTail? fuel (.symbol .colon :: ts)
          suffixes? fuel (.slice a none hi step) ts
      | .symbol .lbrack :: ts => do
          let (i, ts) ← exprs? fuel false ts
          match ts with
          | .symbol .rbrack :: ts => suffixes? fuel (.index a i) ts
          | ts => do
              let (hi, step, ts) ← sliceTail? fuel ts
              suffixes? fuel (.slice a (some i) hi step) ts
      | ts => some (a, ts)

/-- The end and the step of a slice, each after a colon, and its closing bracket. -/
def sliceTail? : Nat → List Token →
    Option (Option (Expr Text) × Option (Expr Text) × List Token)
  | 0, _ => none
  | fuel + 1, ts => do
      let (hi, ts) ← match ts with
        | .symbol .colon :: ts =>
            if startsWith .colon ts || startsWith .rbrack ts then some (none, ts)
            else (test? fuel true ts).map fun (e, ts) => (some e, ts)
        | ts => some (none, ts)
      let (step, ts) ← match ts with
        | .symbol .colon :: ts =>
            if startsWith .rbrack ts then some (none, ts)
            else (test? fuel true ts).map fun (e, ts) => (some e, ts)
        | ts => some (none, ts)
      return (hi, step, ← expect? .rbrack ts)

def args? : Nat → Bool → List Token → Option (List Arg × List Token)
  | 0, _, _ => none
  | fuel + 1, first, ts =>
      if startsWith .rparen ts then some ([], ts.tail)
      else do
        let ts ← if first then some ts else expect? .comma ts
        match ts with
        | .symbol .rparen :: ts => return ([], ts)
        | .symbol .star :: ts => do
            let (e, ts) ← test? fuel true ts
            let (as, ts) ← args? fuel false ts
            return (.items e :: as, ts)
        | .symbol .starStar :: ts => do
            let (e, ts) ← test? fuel true ts
            let (as, ts) ← args? fuel false ts
            return (.entries e :: as, ts)
        | .name name :: .symbol .assign :: ts => do
            let (e, ts) ← test? fuel true ts
            let (as, ts) ← args? fuel false ts
            return (.named name e :: as, ts)
        | ts => do
            let (e, ts) ← test? fuel true ts
            let (as, ts) ← args? fuel false ts
            return (.positional e :: as, ts)

def params? : Nat → Bool → List Token → Option (List Param × List Token)
  | 0, _, _ => none
  | fuel + 1, first, ts =>
      if startsWith .rparen ts || startsWith .colon ts then some ([], ts)
      else do
        let ts ← if first then some ts else expect? .comma ts
        match ts with
        | .symbol .rparen :: _ => return ([], ts)
        | .symbol .star :: .name name :: ts => do
            let (ps, ts) ← params? fuel false ts
            return (.rest (some name) :: ps, ts)
        | .symbol .star :: ts => do
            let (ps, ts) ← params? fuel false ts
            return (.rest none :: ps, ts)
        | .symbol .starStar :: .name name :: ts => do
            let (ps, ts) ← params? fuel false ts
            return (.others name :: ps, ts)
        | .name name :: .symbol .assign :: ts => do
            let (e, ts) ← test? fuel true ts
            let (ps, ts) ← params? fuel false ts
            return (.optional name e :: ps, ts)
        | .name name :: ts => do
            let (ps, ts) ← params? fuel false ts
            return (.plain name :: ps, ts)
        | _ => none

def clauses? : Nat → Symbol → List Token → Option (List (Clause Text) × List Token)
  | 0, _, _ => none
  | fuel + 1, close, ts =>
      match ts with
      | .keyword .for_ :: ts => do
          let (target, ts) ← loopTarget? fuel ts
          match ts with
          | .keyword .in_ :: ts => do
              let (e, ts) ← level? fuel 0 ts
              let (cs, ts) ← clauses? fuel close ts
              return (.for_ target e :: cs, ts)
          | _ => none
      | .keyword .if_ :: ts => do
          let (e, ts) ← test? fuel false ts
          let (cs, ts) ← clauses? fuel close ts
          return (.if_ e :: cs, ts)
      | ts => (expect? close ts).map ([], ·)

/-- The target of a loop: one operand, or several divided by commas. -/
def loopTarget? : Nat → List Token → Option (Target Text × List Token)
  | 0, _ => none
  | fuel + 1, ts => do
      let (a, ts) ← signed? fuel ts
      match ts with
      | .symbol .comma :: _ => do
          let (more, ts) ← moreOperands? fuel ts
          return (← target? fuel (.tuple (a :: more)), ts)
      | ts => return (← target? fuel a, ts)

/-- Operands, each after a comma; the last comma may be left open. -/
def moreOperands? : Nat → List Token → Option (List (Expr Text) × List Token)
  | 0, _ => none
  | fuel + 1, ts =>
      match ts with
      | .symbol .comma :: ts =>
          if endsTuple ts then some ([], ts)
          else do
            let (a, ts) ← signed? fuel ts
            let (more, ts) ← moreOperands? fuel ts
            return (a :: more, ts)
      | ts => some ([], ts)

def entry? : Nat → List Token → Option (Expr Text × Expr Text × List Token)
  | 0, _ => none
  | fuel + 1, ts => do
      let (k, ts) ← test? fuel true ts
      let ts ← expect? .colon ts
      let (v, ts) ← test? fuel true ts
      return (k, v, ts)

def moreEntries? : Nat → List Token → Option (List (Expr Text × Expr Text) × List Token)
  | 0, _ => none
  | fuel + 1, ts =>
      match ts with
      | .symbol .comma :: .symbol .rbrace :: ts => some ([], ts)
      | .symbol .comma :: ts => do
          let (k, v, ts) ← entry? fuel ts
          let (more, ts) ← moreEntries? fuel ts
          return ((k, v) :: more, ts)
      | ts => (expect? .rbrace ts).map ([], ·)

/-- An expression, or several divided by commas, which make a tuple. Only a tuple in brackets may
end with a comma. -/
def exprs? : Nat → Bool → List Token → Option (Expr Text × List Token)
  | 0, _, _ => none
  | fuel + 1, bracketed, ts => do
      let (a, ts) ← test? fuel true ts
      match ts with
      | .symbol .comma :: _ => do
          let (items, ts) ← moreExprs? fuel bracketed ts
          return (.tuple (a :: items), ts)
      | ts => return (a, ts)

def moreExprs? : Nat → Bool → List Token → Option (List (Expr Text) × List Token)
  | 0, _, _ => none
  | fuel + 1, bracketed, ts =>
      match ts with
      | .symbol .comma :: ts =>
          if endsTuple ts then if bracketed then some ([], ts) else none
          else do
            let (a, ts) ← test? fuel true ts
            let (items, ts) ← moreExprs? fuel bracketed ts
            return (a :: items, ts)
      | ts => some ([], ts)

end

/-! ### Statements -/

def small? (fuel : Nat) (ts : List Token) : Option (Statement Text × List Token) :=
  match ts with
  | .keyword .pass :: ts => some (.pass, ts)
  | .keyword .break_ :: ts => some (.break_, ts)
  | .keyword .continue_ :: ts => some (.continue_, ts)
  | .keyword .return_ :: ts =>
      match ts with
      | [] => some (.return_ none, ts)
      | .lineEnd :: _ => some (.return_ none, ts)
      | .symbol .semicolon :: _ => some (.return_ none, ts)
      | ts => (exprs? fuel false ts).map fun (e, ts) => (.return_ (some e), ts)
  | ts => do
      let (a, ts) ← exprs? fuel false ts
      match ts with
      | .symbol .assign :: ts => do
          let (e, ts) ← exprs? fuel false ts
          return (.assign (← target? fuel a) e, ts)
      | .update s :: ts => do
          let (e, ts) ← exprs? fuel false ts
          match ← target? fuel a with
          | .several _ => none
          | target => return (.update target (← arithmetic? s) e, ts)
      | ts => return (.expr a, ts)

def endOfLine? : List Token → Option (List Token)
  | [] => some []
  | .lineEnd :: ts => some ts
  | _ => none

def line? : Nat → List Token → Option (List (Statement Text) × List Token)
  | 0, _ => none
  | fuel + 1, ts => do
      let (s, ts) ← small? fuel ts
      match ts with
      | .symbol .semicolon :: ts =>
          match endOfLine? ts with
          | some ts => return ([s], ts)
          | none => do
              let (more, ts) ← line? fuel ts
              return (s :: more, ts)
      | ts => return ([s], ← endOfLine? ts)

mutual

/-- One compound statement, or the small ones of a line. -/
def statement? : Nat → List Token → Option (List (Statement Text) × List Token)
  | 0, _ => none
  | fuel + 1, ts =>
      match ts with
      | .keyword .def_ :: .name name :: .symbol .lparen :: ts => do
          let (ps, ts) ← params? fuel true ts
          let s ← Signature.of? ps
          let ts ← expect? .rparen ts
          let (body, ts) ← suite? fuel ts
          return ([.define name (s.function name body)], ts)
      | .keyword .if_ :: ts => do
          let (s, ts) ← branches? fuel ts
          return ([s], ts)
      | .keyword .for_ :: ts => do
          let (target, ts) ← loopTarget? fuel ts
          match ts with
          | .keyword .in_ :: ts => do
              let (e, ts) ← exprs? fuel false ts
              let (body, ts) ← suite? fuel ts
              return ([.for_ target e body], ts)
          | _ => none
      | ts => line? fuel ts

def branches? : Nat → List Token → Option (Statement Text × List Token)
  | 0, _ => none
  | fuel + 1, ts => do
      let (c, ts) ← test? fuel true ts
      let (yes, ts) ← suite? fuel ts
      match ts with
      | .keyword .elif :: ts => do
          let (s, ts) ← branches? fuel ts
          return (.if_ c yes [s], ts)
      | .keyword .else_ :: ts => do
          let (no, ts) ← suite? fuel ts
          return (.if_ c yes no, ts)
      | ts => return (.if_ c yes [], ts)

/-- A block after a colon: the rest of the line, or the lines nested below it. -/
def suite? : Nat → List Token → Option (List (Statement Text) × List Token)
  | 0, _ => none
  | fuel + 1, ts => do
      match ← expect? .colon ts with
      | .lineEnd :: .indent :: ts => block? fuel ts
      | .lineEnd :: _ => none
      | ts => line? fuel ts

def block? : Nat → List Token → Option (List (Statement Text) × List Token)
  | 0, _ => none
  | fuel + 1, ts =>
      match ts with
      | [] => none
      | .outdent :: ts => some ([], ts)
      | ts => do
          let (ss, ts) ← statement? fuel ts
          let (more, ts) ← block? fuel ts
          return (ss ++ more, ts)

end

def statements? : Nat → List Token → Option (List (Statement Text))
  | 0, _ => none
  | fuel + 1, ts =>
      match ts with
      | [] => some []
      | .lineEnd :: ts => statements? fuel ts
      | ts => do
          let (ss, ts) ← statement? fuel ts
          let more ← statements? fuel ts
          return ss ++ more

/-- Fuel that suffices for some tokens: no token is looked at by more than two dozen nested calls
before another is read. -/
def parseFuel (ts : List Token) : Nat := 32 * (ts.length + 1)

def parse? (ts : List Token) : Option (List (Statement Text)) := statements? (parseFuel ts) ts

end TapeMachine.Expression
