import TapeMachine.Text

/-! Blanks. The blank characters are those of the Unicode property `White_Space`: the ASCII ones,
and nineteen more that take two or three bytes. A byte that belongs to no valid encoding is never
blank. The words of a line are its longest stretches without a blank. -/

namespace TapeMachine.Text

/-- A text cut into blank characters and all other bytes. -/
inductive Piece where
  | blank (bytes : Text)
  | plain (b : UInt8)
  deriving DecidableEq

namespace Piece

def isBlank : Piece → Bool
  | blank _ => true
  | plain _ => false

def bytes : Piece → Text
  | blank bs => bs
  | plain b => [b]

/-- Puts one byte in front. The lead bytes `C2`, `E1`, `E2` and `E3` never occur inside another
character, so looking at the one or two bytes that follow decides whether a blank starts here. -/
def cons (b : UInt8) (ps : List Piece) : List Piece :=
  if b = byte ' ' || (9 ≤ b && b ≤ 13) then blank [b] :: ps
  else match b, ps with
    | 0xC2, plain c :: r =>
        if c = 0x85 || c = 0xA0 then blank [0xC2, c] :: r else plain 0xC2 :: ps
    | 0xE1, plain 0x9A :: plain 0x80 :: r => blank [0xE1, 0x9A, 0x80] :: r
    | 0xE2, plain 0x80 :: plain c :: r =>
        if (0x80 ≤ c && c ≤ 0x8A) || c = 0xA8 || c = 0xA9 || c = 0xAF
        then blank [0xE2, 0x80, c] :: r else plain 0xE2 :: ps
    | 0xE2, plain 0x81 :: plain 0x9F :: r => blank [0xE2, 0x81, 0x9F] :: r
    | 0xE3, plain 0x80 :: plain 0x80 :: r => blank [0xE3, 0x80, 0x80] :: r
    | b, ps => plain b :: ps

end Piece

def pieces (t : Text) : List Piece := t.foldr Piece.cons []

def trim (t : Text) : Text :=
  ((((pieces t).dropWhile Piece.isBlank).reverse.dropWhile Piece.isBlank).reverse).flatMap
    Piece.bytes

/-- Closes the word in front, unless it is empty. -/
def closeWord (front : Text) (ws : List Text) : List Text :=
  if front.isEmpty then ws else front :: ws

/-- Adds one piece in front of an open word and the words after it. -/
def addPiece (p : Piece) (acc : Text × List Text) : Text × List Text :=
  match p with
  | .plain b => (b :: acc.1, acc.2)
  | .blank _ => ([], closeWord acc.1 acc.2)

def words (t : Text) : List Text :=
  let acc := (pieces t).foldr addPiece ([], [])
  closeWord acc.1 acc.2

end TapeMachine.Text
