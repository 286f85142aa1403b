import TapeMachine.Text

/-! Expressions and statements as trees. They are first read with names as they are written, and
then with each name replaced by what it refers to, so the trees are over a type `ν` of names. -/

namespace TapeMachine.Expression

inductive UnaryOp where
  | plus
  | minus
  | invert
  | not
  deriving DecidableEq, Repr

inductive BinaryOp where
  | or
  | and
  | eq
  | ne
  | lt
  | gt
  | le
  | ge
  | in_
  | notIn
  | bitOr
  | bitXor
  | bitAnd
  | shl
  | shr
  | add
  | sub
  | mul
  | mod
  | div
  | floorDiv
  deriving DecidableEq, Repr

inductive Builtin where
  | abs
  | all
  | any
  | bool
  | bytes
  | chr
  | dict
  | dir
  | enumerate
  | fail
  | float
  | getattr
  | hasattr
  | hash
  | int
  | len
  | list
  | max
  | min
  | ord
  | print
  | range
  | repr
  | reversed
  | sorted
  | str
  | tuple
  | type
  | zip
  deriving DecidableEq, Repr

namespace Builtin

def named : List (Text × Builtin) :=
  [(text "abs", abs), (text "all", all), (text "any", any), (text "bool", bool),
    (text "bytes", bytes), (text "chr", chr), (text "dict", dict), (text "dir", dir),
    (text "enumerate", enumerate), (text "fail", fail), (text "float", float),
    (text "getattr", getattr), (text "hasattr", hasattr), (text "hash", hash), (text "int", int),
    (text "len", len), (text "list", list), (text "max", max), (text "min", min),
    (text "ord", ord), (text "print", print), (text "range", range), (text "repr", repr),
    (text "reversed", reversed), (text "sorted", sorted), (text "str", str),
    (text "tuple", tuple), (text "type", type), (text "zip", zip)]

def name (f : Builtin) : Text := ((named.find? (·.2 = f)).map (·.1)).getD []

end Builtin

/-- What a literal or a name of the language stands for. -/
inductive Constant where
  | nil
  | bool (b : Bool)
  | int (n : Int)
  | float (x : Float)
  | string (t : Text)
  | bytes (t : Text)
  | function (f : Builtin)

mutual

inductive Expr (ν : Type) where
  | constant (c : Constant)
  | name (v : ν)
  | tuple (items : List (Expr ν))
  | list (items : List (Expr ν))
  | dict (entries : List (Expr ν × Expr ν))
  | unary (op : UnaryOp) (a : Expr ν)
  | binary (op : BinaryOp) (a b : Expr ν)
  | cond (test yes no : Expr ν)
  | call (f : Expr ν) (args : Args ν)
  | index (a i : Expr ν)
  | slice (a : Expr ν) (lo hi step : Option (Expr ν))
  | attribute (a : Expr ν) (field : Text)
  | lambda (f : Function ν)
  | listFor (item : Expr ν) (clauses : List (Clause ν))
  | dictFor (key value : Expr ν) (clauses : List (Clause ν))

/-- The arguments of a call: by position, by name, the items of one value, and the entries of
another. -/
structure Args (ν : Type) where
  positional : List (Expr ν)
  named : List (Text × Expr ν)
  items : Option (Expr ν)
  entries : Option (Expr ν)

inductive Clause (ν : Type) where
  | for_ (target : Target ν) (e : Expr ν)
  | if_ (e : Expr ν)

inductive Target (ν : Type) where
  | name (v : ν)
  | index (a i : Expr ν)
  | attribute (a : Expr ν) (field : Text)
  | several (targets : List (Target ν))

/-- A function. The last `namedOnly` of its parameters can only be given by name; arguments beyond
the parameters go to `rest` and `others`. Each call has a frame of `size` variables: the
parameters, `rest` and `others` if they are there, and all other names it binds. -/
structure Function (ν : Type) where
  id : Nat
  name : Text
  params : List (Text × Option (Expr ν))
  namedOnly : Nat
  rest : Option Text
  others : Option Text
  body : List (Statement ν)
  size : Nat

inductive Statement (ν : Type) where
  | expr (e : Expr ν)
  | assign (target : Target ν) (e : Expr ν)
  | update (target : Target ν) (op : BinaryOp) (e : Expr ν)
  | define (name : ν) (f : Function ν)
  | if_ (test : Expr ν) (yes no : List (Statement ν))
  | for_ (target : Target ν) (e : Expr ν) (body : List (Statement ν))
  | return_ (e : Option (Expr ν))
  | pass
  | break_
  | continue_

end

instance {ν : Type} : Inhabited (Expr ν) := ⟨.constant .nil⟩

instance {ν : Type} : Inhabited (Statement ν) := ⟨.pass⟩

end TapeMachine.Expression
