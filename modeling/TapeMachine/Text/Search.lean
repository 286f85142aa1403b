import TapeMachine.Text.Blank
import TapeMachine.Text.Character

/-! Parts of texts: where one occurs in another, and texts cut at separators or at blanks. -/

namespace TapeMachine.Text

def indexOf? (part : Text) : Text → Option Nat
  | [] => if part.isEmpty then some 0 else none
  | b :: rest =>
      if part.isPrefixOf (b :: rest) then some 0 else (indexOf? part rest).map (· + 1)

def lastIndexOf? (part t : Text) : Option Nat :=
  (indexOf? part.reverse t.reverse).map fun i => t.length - i - part.length

/-- A text cut at the first `limit` occurrences of a separator that is not empty, after the `skip`
bytes that end one. There is always a first piece. -/
def splitFrom (separator : Text) : Nat → Nat → Text → List Text
  | _, _, [] => [[]]
  | limit, skip + 1, _ :: rest => splitFrom separator limit skip rest
  | limit, 0, b :: rest =>
      if 0 < limit && separator.isPrefixOf (b :: rest) then
        [] :: splitFrom separator (limit - 1) (separator.length - 1) rest
      else match splitFrom separator limit 0 rest with
        | piece :: more => (b :: piece) :: more
        | [] => [[b]]

def splitAtMost (limit : Nat) (separator t : Text) : List Text := splitFrom separator limit 0 t

def splitAll (separator t : Text) : List Text := splitAtMost t.length separator t

/-- How often a part occurs, without overlap; the empty part occurs around every character. -/
def occurrences (part t : Text) : Nat :=
  if part.isEmpty then (chars t).length + 1 else (splitAll part t).length - 1

/-- Up to `limit` occurrences of a part replaced; the empty part occurs around every character. -/
def replaceAtMost (limit : Nat) (part new t : Text) : Text :=
  if part.isEmpty then around limit (chars t)
  else new.intercalate (splitAtMost limit part t)
where
  around : Nat → List Text → Text
    | 0, cs => cs.flatten
    | _ + 1, [] => new
    | limit + 1, c :: cs => new ++ c ++ around limit cs

def isBlankChar (c : Text) : Bool := (pieces c).all Piece.isBlank

/-- The words among characters, up to `limit` of them ended by a blank; one more takes all the
rest. `word` holds the characters of the current one, the last first. -/
def wordsFrom : Nat → List Text → List Text → List (List Text)
  | _, word, [] => if word.isEmpty then [] else [word.reverse]
  | limit, word, c :: cs =>
      if isBlankChar c then
        if word.isEmpty then wordsFrom limit [] cs
        else match limit with
          | 0 => [word.reverse ++ c :: cs]
          | limit + 1 => word.reverse :: wordsFrom limit [] cs
      else wordsFrom limit (c :: word) cs

/-- Up to `limit` words from the left, and the rest. -/
def leftWords (limit : Nat) (t : Text) : List Text :=
  (wordsFrom limit [] (chars t)).map List.flatten

/-- Up to `limit` words from the right, and the rest before them. -/
def rightWords (limit : Nat) (t : Text) : List Text :=
  ((wordsFrom limit [] (chars t).reverse).map fun w => w.reverse.flatten).reverse

end TapeMachine.Text
