import TapeMachine.Expression.Value

/-! Dictionaries. A key is any value that cannot change. Two keys are compared only if their hashes
agree, and then at most ten levels deep; a comparison that would go deeper fails. -/

namespace TapeMachine.Expression

namespace Value

/-- A hash of bytes that multiplies by a prime after each byte. -/
def bytesHash (t : Text) : UInt32 :=
  t.foldl (fun h b => (h ^^^ b.toUInt32) * 16777619) 2166136261

/-- The hash of an integer. One of more than 32 bits has the hash of its magnitude. -/
def intHash (n : Int) : UInt32 :=
  12582917 * UInt32.ofInt ((if (int32? (int n)).isSome then n else n.natAbs) + 3)

/-- Takes the hash of the next item of a tuple of `size` items into the hash of those before. -/
def mixHash (size : Nat) (acc : UInt32 × UInt32) (hash : UInt32) : UInt32 × UInt32 :=
  (acc.1 ^^^ hash * acc.2, acc.2 + 82520 + UInt32.ofNat (2 * size))

/-- The hash of a value that can be a key. Numbers that are equal have the same one. -/
def hash? (s : Store) : Value → Option UInt32
  | nil => some 0
  | bool b => some (if b then 1 else 0)
  | int n => some (intHash n)
  | float x => some (((Number.toInt? x).map intHash).getD 1618033)
  | string t => some (bytesHash t)
  | bytes t => some (bytesHash t)
  | tuple items => (hashes items).map fun hs =>
      (hs.foldl (mixHash items.length) (0x345678, 1000003)).1
  | builtin f => some (bytesHash f.name)
  | function place => some (bytesHash (s.nameAt place))
  | method place => some (bytesHash (s.nameAt place) ^^^ 5521)
  | range .. | view .. | list _ | dict _ => none
where
  hashes : List Value → Option (List UInt32)
    | [] => some []
    | v :: vs =>
        match hash? s v, hashes vs with
        | some h, some hs => some (h :: hs)
        | _, _ => none

def depthLimit : Nat := 10

def sameItems? (equal : Value → Value → Option Bool) : List Value → List Value → Option Bool
  | x :: xs, y :: ys =>
      match equal x y with
      | some true => sameItems? equal xs ys
      | answer => answer
  | _, _ => some true

def sameKey? : Nat → Value → Value → Option Bool
  | 0, _, _ => none
  | depth + 1, x, y =>
      match x, y with
      | nil, nil => some true
      | bool a, bool b => some (a == b)
      | int m, int n => some (m == n)
      | int m, float y => some (Number.compareInt m y == .eq)
      | float x, int n => some (Number.compareInt n x == .eq)
      | float x, float y => some (Number.compareFloat x y == .eq)
      | string s, string t => some (s == t)
      | bytes s, bytes t => some (s == t)
      | tuple xs, tuple ys =>
          if xs.length ≠ ys.length then some false else sameItems? (sameKey? depth) xs ys
      | builtin f, builtin g => some (f == g)
      | function a, function b => some (a == b)
      | method a, method b => some (a == b)
      | _, _ => some false

end Value

namespace Dict

/-- Looks for a key with a hash among the last `left` entries. -/
def searchFrom (d : Dict) (hash : UInt32) (key : Value) : Nat → Option (Option Nat)
  | 0 => some none
  | left + 1 =>
      let i := d.entries.size - (left + 1)
      match d.entries[i]? with
      | none => some none
      | some e =>
          if e.hash ≠ hash then searchFrom d hash key left
          else match Value.sameKey? Value.depthLimit key e.key with
            | none => none
            | some true => some (some i)
            | some false => searchFrom d hash key left

def search (d : Dict) (hash : UInt32) (key : Value) : Option (Option Nat) :=
  searchFrom d hash key d.entries.size

/-- The hash of a key in a dictionary, which is not zero. -/
def keyHash? (s : Store) (key : Value) : Option UInt32 :=
  (key.hash? s).map fun h => if h = 0 then 1 else h

def find? (s : Store) (d : Dict) (key : Value) : Option (Option Nat) :=
  (keyHash? s key).bind fun h => d.search h key

def get? (s : Store) (d : Dict) (key : Value) : Option (Option Value) :=
  (d.find? s key).map fun i => (i.bind (d.entries[·]?)).map (·.value)

def insert? (s : Store) (d : Dict) (key value : Value) : Option Dict :=
  match keyHash? s key with
  | none => none
  | some h =>
      match d.search h key with
      | none => none
      | some none => some { entries := d.entries.push ⟨h, key, value⟩, used := true }
      | some (some i) => some { d with entries := d.entries.modify i ({ · with value := value }) }

def insertAll? (s : Store) (d : Dict) (pairs : List (Value × Value)) : Option Dict :=
  pairs.foldlM (fun d (k, v) => d.insert? s k v) d

/-- Puts entries over those of a dictionary, up to the first that cannot be put there. -/
def overlay (s : Store) (d : Dict) : List Entry → Dict
  | [] => d
  | e :: rest =>
      match d.insert? s e.key e.value with
      | some d => overlay s d rest
      | none => d

/-- The value of a key, if it is there, and the dictionary without it. -/
def erase? (s : Store) (d : Dict) (key : Value) : Option (Option Value × Dict) :=
  if !d.used then some (none, d)
  else match d.find? s key with
    | none => none
    | some none => some (none, d)
    | some (some i) =>
        some (d.entries[i]?.map (·.value),
          { d with entries := (d.entries.toList.eraseIdx i).toArray })

def pairs (d : Dict) : List (Value × Value) := d.entries.toList.map fun e => (e.key, e.value)

end Dict

end TapeMachine.Expression
