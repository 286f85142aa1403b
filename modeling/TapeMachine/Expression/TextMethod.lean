import TapeMachine.Expression.Operator
import TapeMachine.Text.Case
import TapeMachine.Text.Letter
import TapeMachine.Text.LetterCase
import TapeMachine.Text.Search

/-! The methods of strings. Positions count bytes, and case and classes of characters are those of
Unicode. -/

namespace TapeMachine.Expression

namespace TextMethod

def isBlankCode (code : Nat) : Bool := Text.isBlankChar (Text.encode code)

/-- Not empty, and every character of a class. -/
def allCodes (p : Nat → Bool) (t : Text) : Bool := !t.isEmpty && (Text.codes t).all p

def hasCase (t : Text) : Bool := (Text.codes t).any Text.isCased

/-- A letter that can only start a word: a capital without accent, or one that stands for two. -/
def startsWord (code : Nat) : Bool :=
  (0x41 ≤ code && code ≤ 0x5A) || Text.isTitlecaseCode code

/-- Whether words start with capitals and go on without, after a letter or not. `found` says
whether there is any. -/
def titled : Bool → Bool → List Nat → Bool
  | found, _, [] => found
  | found, inside, code :: rest =>
      if startsWord code then !inside && titled true true rest
      else if Text.isLowercaseCode code then inside && titled true true rest
      else !Text.isUppercaseCode code && titled found false rest

/-- Capitals at the start of every word, after a character with case or not. -/
def titleFrom : Bool → List Nat → List Nat
  | _, [] => []
  | cased, code :: rest =>
      let new := if cased then Text.lowerCode code else Text.titleCode code
      new :: titleFrom (Text.isCased new) rest

def capitalized : List Nat → List Nat
  | [] => []
  | code :: rest => Text.titleCode code :: rest.map Text.lowerCode

/-- The part between two optional bounds, and where it starts. -/
def part? (t : Text) (lo hi : Value) : Option (Nat × Text) :=
  (Value.span? t.length lo hi).map fun (a, b) => (a, (t.drop a).take (b - a))

def partArgs? : List Value → Option (Value × Value × Value)
  | [x] => some (x, .nil, .nil)
  | [x, lo] => some (x, lo, .nil)
  | [x, lo, hi] => some (x, lo, hi)
  | _ => none

/-- Where a part occurs between two bounds, by one of two ways to look for it. -/
def locate? (search : Text → Text → Option Nat) (t : Text) (args : List Value) :
    Option (Option Nat) :=
  match partArgs? args with
  | some (.string sub, lo, hi) =>
      (part? t lo hi).map fun (start, slice) => (search sub slice).map (start + ·)
  | _ => none

def fits? (test : Text → Bool) : List Value → Option Bool
  | [] => some false
  | .string u :: rest => if test u then some true else fits? test rest
  | _ :: _ => none

/-- Whether a part between two bounds starts or ends with a text or one of a tuple. -/
def affix? (test : Text → Text → Bool) (t : Text) (args : List Value) : Option Bool :=
  match partArgs? args with
  | none => none
  | some (x, lo, hi) =>
      match part? t lo hi, x with
      | some (_, slice), .string u => some (test u slice)
      | some (_, slice), .tuple us => fits? (test · slice) us
      | _, _ => none

/-- Which characters are stripped: blanks, or those of a text that is not empty. -/
def stripped? : List Value → Option (Text → Bool)
  | [] => some Text.isBlankChar
  | [.string set] =>
      let codes := Text.codes set
      some (if set.isEmpty then Text.isBlankChar else fun c => codes.contains (Text.codeOf c))
  | _ => none

def stripLeft (p : Text → Bool) (cs : List Text) : List Text := cs.dropWhile p

def stripRight (p : Text → Bool) (cs : List Text) : List Text :=
  (cs.reverse.dropWhile p).reverse

/-! ### Splitting -/

def cutAt (t separator : Text) (i : Nat) : List Value :=
  [.string (t.take i), .string separator, .string (t.drop (i + separator.length))]

/-- The separator, if one is given, and how many cuts are made, if that is bounded. -/
def splitArgs? : List Value → Option (Option Text × Option Nat)
  | [] => some (none, none)
  | [.nil] => some (none, none)
  | [.string sep] => some (some sep, none)
  | [sep, n] =>
      match n.int64? with
      | none => none
      | some n =>
          let limit := if n < 0 then none else some n.toNat
          match sep with
          | .nil => some (none, limit)
          | .string sep => some (some sep, limit)
          | _ => none
  | _ => none

/-- The last pieces apart, and those before them joined again. -/
def joinFirst (separator : Text) (limit : Nat) (pieces : List Text) : List Text :=
  let excess := pieces.length - limit
  if excess ≤ 1 then pieces
  else separator.intercalate (pieces.take excess) :: pieces.drop excess

/-- The parts of a text. Words from the right need room for all that are asked for. -/
def pieces (fromRight : Bool) (t : Text) (args : List Value) : Run (List Text) := do
  match ← Run.ofOption (splitArgs? args) with
  | (none, none) => return Text.words t
  | (none, some limit) =>
      if fromRight then
        Run.reserve (limit + 1)
        return Text.rightWords limit t
      else return Text.leftWords limit t
  | (some sep, limit) =>
      if sep.isEmpty then failure
      else match limit with
        | none => return Text.splitAll sep t
        | some limit =>
            return if fromRight then joinFirst sep limit (Text.splitAll sep t)
              else Text.splitAtMost limit sep t

def lines (keepEnds : Bool) (t : Text) : List Text :=
  let pieces := Text.splitAll (text "\n") t
  let whole := pieces.dropLast.map fun l => if keepEnds then l ++ text "\n" else l
  match pieces.getLast? with
  | some (b :: rest) => whole ++ [b :: rest]
  | _ => whole

def ofTexts (ts : List Text) : Run Value := Run.newList (ts.map Value.string).toArray

def plain (args : List Value) (v : Value) : Run Value := if args.isEmpty then return v else failure

/-- Calls a method of a string. Only `format` takes named arguments. -/
def call (m : TextMethod) (t : Text) (args : List Value) (named : List (Text × Value)) :
    Run Value := do
  if m ≠ .format && !named.isEmpty then failure
  let codes := Text.codes t
  match m with
  | .capitalize => plain args (.string (Text.ofCodes (capitalized codes)))
  | .codepointOrds => plain args (.view .codepointOrds t)
  | .codepoints => plain args (.view .codepoints t)
  | .elemOrds => plain args (.view .elemOrds t)
  | .elems => plain args (.view .elems t)
  | .isalnum =>
      plain args (.bool (allCodes (fun c => Text.isLetterCode c || Text.isDecimalCode c) t))
  | .isalpha => plain args (.bool (allCodes Text.isLetterCode t))
  | .isdigit => plain args (.bool (allCodes Text.isDecimalCode t))
  | .islower => plain args (.bool (hasCase t && Text.lowerCase t = t))
  | .isupper => plain args (.bool (hasCase t && Text.upperCase t = t))
  | .isspace => plain args (.bool (allCodes isBlankCode t))
  | .istitle => plain args (.bool (titled false false codes))
  | .lower => plain args (.string (Text.lowerCase t))
  | .upper => plain args (.string (Text.upperCase t))
  | .title => plain args (.string (Text.ofCodes (titleFrom false codes)))
  | .count =>
      match partArgs? args with
      | some (.string sub, lo, hi) =>
          let (_, slice) ← Run.ofOption (part? t lo hi)
          return .int (Text.occurrences sub slice)
      | _ => failure
  | .find =>
      return .int (((← Run.ofOption (locate? Text.indexOf? t args)).map Int.ofNat).getD (-1))
  | .rfind =>
      return .int (((← Run.ofOption (locate? Text.lastIndexOf? t args)).map Int.ofNat).getD (-1))
  | .index =>
      let some i ← Run.ofOption (locate? Text.indexOf? t args) | failure
      return .int i
  | .rindex =>
      let some i ← Run.ofOption (locate? Text.lastIndexOf? t args) | failure
      return .int i
  | .startswith => return .bool (← Run.ofOption (affix? List.isPrefixOf t args))
  | .endswith => return .bool (← Run.ofOption (affix? List.isSuffixOf t args))
  | .format => return .string (← Run.ofOption (Template.format? (← Run.store) t args named))
  | .join =>
      let [xs] := args | failure
      let texts ← (← xs.items).mapM fun x => Run.ofOption x.string?
      return .string (t.intercalate texts)
  | .strip =>
      let p ← Run.ofOption (stripped? args)
      return .string (stripRight p (stripLeft p (Text.chars t))).flatten
  | .lstrip =>
      let p ← Run.ofOption (stripped? args)
      return .string (stripLeft p (Text.chars t)).flatten
  | .rstrip =>
      let p ← Run.ofOption (stripped? args)
      return .string (stripRight p (Text.chars t)).flatten
  | .partition =>
      let [.string sep] := args | failure
      if sep.isEmpty then failure
      else match Text.indexOf? sep t with
        | some i => return .tuple (cutAt t sep i)
        | none => return .tuple [.string t, .string [], .string []]
  | .rpartition =>
      let [.string sep] := args | failure
      if sep.isEmpty then failure
      else match Text.lastIndexOf? sep t with
        | some i => return .tuple (cutAt t sep i)
        | none => return .tuple [.string [], .string [], .string t]
  | .dropLead =>
      let [.string lead] := args | failure
      return .string (if lead.isPrefixOf t then t.drop lead.length else t)
  | .dropTail =>
      let [.string tail] := args | failure
      return .string (if tail.isSuffixOf t then t.take (t.length - tail.length) else t)
  | .replace =>
      match args with
      | [.string old, .string new] => return .string (Text.replaceAtMost (t.length + 1) old new t)
      | [.string old, .string new, n] =>
          let n ← Run.ofOption n.int64?
          let limit := if n < 0 then t.length + 1 else n.toNat
          return .string (Text.replaceAtMost limit old new t)
      | _ => failure
  | .split => do ofTexts (← pieces false t args)
  | .rsplit => do ofTexts (← pieces true t args)
  | .splitlines =>
      match args with
      | [] => ofTexts (lines false t)
      | [.bool keepEnds] => ofTexts (lines keepEnds t)
      | _ => failure

end TextMethod

end TapeMachine.Expression
