import TapeMachine.Text

/-! Characters of UTF-8 text. A byte that starts no valid encoding counts as a character of its
own, so every text, valid or not, divides into characters. -/

namespace TapeMachine.Text

def continues (b : UInt8) : Bool := 0x80 ≤ b && b ≤ 0xBF

/-- Whether the second byte of a character may follow its first, which rules out encodings that
are longer than needed, surrogates, and codes above `10FFFF`. -/
def mayFollow (first second : UInt8) : Bool :=
  if first = 0xE0 then 0xA0 ≤ second && second ≤ 0xBF
  else if first = 0xED then 0x80 ≤ second && second ≤ 0x9F
  else if first = 0xF0 then 0x90 ≤ second && second ≤ 0xBF
  else if first = 0xF4 then 0x80 ≤ second && second ≤ 0x8F
  else continues second

def charWidth : Text → Nat
  | [] => 0
  | a :: rest =>
      if 0xC2 ≤ a && a ≤ 0xDF then
        match rest with
        | b :: _ => if continues b then 2 else 1
        | _ => 1
      else if 0xE0 ≤ a && a ≤ 0xEF then
        match rest with
        | b :: c :: _ => if mayFollow a b && continues c then 3 else 1
        | _ => 1
      else if 0xF0 ≤ a && a ≤ 0xF4 then
        match rest with
        | b :: c :: d :: _ => if mayFollow a b && continues c && continues d then 4 else 1
        | _ => 1
      else 1

/-- The code of a character of `width` bytes, from the payload bits of its bytes. -/
def charCode (width : Nat) (t : Text) : Nat :=
  match width, t with
  | 2, a :: b :: _ => (a.toNat % 32) * 64 + b.toNat % 64
  | 3, a :: b :: c :: _ => ((a.toNat % 16) * 64 + b.toNat % 64) * 64 + c.toNat % 64
  | 4, a :: b :: c :: d :: _ =>
      (((a.toNat % 8) * 64 + b.toNat % 64) * 64 + c.toNat % 64) * 64 + d.toNat % 64
  | _, a :: _ => a.toNat
  | _, [] => 0

/-- The characters of a text, after the `skip` bytes that end the one before. -/
def charsFrom : Nat → Text → List Text
  | _, [] => []
  | skip + 1, _ :: rest => charsFrom skip rest
  | 0, b :: rest =>
      let width := charWidth (b :: rest)
      (b :: rest).take width :: charsFrom (width - 1) rest

def chars (t : Text) : List Text := charsFrom 0 t

/-- What stands for a byte of no valid character. -/
def replacement : Nat := 0xFFFD

def codeOf (c : Text) : Nat :=
  match c with
  | [b] => if b < 0x80 then b.toNat else replacement
  | _ => charCode c.length c

def codes (t : Text) : List Nat := (chars t).map codeOf

/-- The UTF-8 bytes of a code; surrogates and codes above `10FFFF` have none and are replaced. -/
def encode (code : Nat) : Text :=
  if code < 0x80 then [code.toUInt8]
  else if code < 0x800 then [(0xC0 + code / 64).toUInt8, (0x80 + code % 64).toUInt8]
  else if (0xD800 ≤ code && code ≤ 0xDFFF) || 0x10FFFF < code then [0xEF, 0xBF, 0xBD]
  else if code < 0x10000 then
    [(0xE0 + code / 4096).toUInt8, (0x80 + code / 64 % 64).toUInt8, (0x80 + code % 64).toUInt8]
  else
    [(0xF0 + code / 262144).toUInt8, (0x80 + code / 4096 % 64).toUInt8,
      (0x80 + code / 64 % 64).toUInt8, (0x80 + code % 64).toUInt8]

def ofCodes (cs : List Nat) : Text := cs.flatMap encode

/-- The text with each byte of no valid character replaced. -/
def repaired (t : Text) : Text := ofCodes (codes t)

def inRanges (ranges : List (Nat × Nat)) (code : Nat) : Bool :=
  ranges.any fun r => r.1 ≤ code && code ≤ r.2

end TapeMachine.Text
