/-
  Byte strings and their reading as text.

  A byte string is any list of bytes. Reading it as text goes character by
  character; a byte that starts no well-formed character stands for itself and
  is passed over alone.
-/

namespace TypedIR.Text

abbrev Bytes := List UInt8

def bytesOf (s : String) : Bytes :=
  s.toUTF8.toList

/-- One piece of a byte string: a character, or a byte that starts none. -/
inductive Piece where
  | char (c : Char)
  | stray (b : UInt8)
  deriving DecidableEq, Repr

def isContinuation (b : UInt8) : Bool :=
  0x80 ≤ b && b ≤ 0xBF

def continuationBits (b : UInt8) : Nat :=
  b.toNat % 64

/-- The character that the bytes start with, and how many bytes it takes.
Overlong forms, surrogates and numbers past the last code point are no
characters. -/
def leadingChar? : Bytes → Option (Char × Nat)
  | [] => none
  | b0 :: rest =>
    if b0 < 0x80 then some (Char.ofNat b0.toNat, 1)
    else if 0xC2 ≤ b0 && b0 ≤ 0xDF then
      match rest with
      | b1 :: _ =>
        if isContinuation b1 then
          some (Char.ofNat ((b0.toNat % 32) * 64 + continuationBits b1), 2)
        else none
      | [] => none
    else if 0xE0 ≤ b0 && b0 ≤ 0xEF then
      match rest with
      | b1 :: b2 :: _ =>
        let low := if b0 == 0xE0 then 0xA0 else 0x80
        let high := if b0 == 0xED then 0x9F else 0xBF
        if low ≤ b1 && b1 ≤ high && isContinuation b2 then
          some (Char.ofNat (((b0.toNat % 16) * 64 + continuationBits b1) * 64
            + continuationBits b2), 3)
        else none
      | _ => none
    else if 0xF0 ≤ b0 && b0 ≤ 0xF4 then
      match rest with
      | b1 :: b2 :: b3 :: _ =>
        let low := if b0 == 0xF0 then 0x90 else 0x80
        let high := if b0 == 0xF4 then 0x8F else 0xBF
        if low ≤ b1 && b1 ≤ high && isContinuation b2 && isContinuation b3 then
          some (Char.ofNat ((((b0.toNat % 8) * 64 + continuationBits b1) * 64
            + continuationBits b2) * 64 + continuationBits b3), 4)
        else none
      | _ => none
    else none

def piecesUpTo : Nat → Bytes → List Piece
  | 0, _ => []
  | _ + 1, [] => []
  | n + 1, b :: rest =>
    match leadingChar? (b :: rest) with
    | some (c, width) => .char c :: piecesUpTo n ((b :: rest).drop width)
    | none => .stray b :: piecesUpTo n rest

def pieces (bs : Bytes) : List Piece :=
  piecesUpTo bs.length bs

def replacement : Char := Char.ofNat 0xFFFD

def lossyText (bs : Bytes) : String :=
  String.ofList ((pieces bs).map fun
    | .char c => c
    | .stray _ => replacement)

def squeezedText (bs : Bytes) : String :=
  let rec go : Bool → List Piece → List Char
    | _, [] => []
    | _, .char c :: rest => c :: go false rest
    | true, .stray _ :: rest => go true rest
    | false, .stray _ :: rest => replacement :: go true rest
  String.ofList (go false (pieces bs))

def latinText (bs : Bytes) : String :=
  String.ofList (bs.map fun b => Char.ofNat b.toNat)

def bytesOfChar (c : Char) : Bytes :=
  bytesOf (String.singleton c)

def Piece.bytes : Piece → Bytes
  | .char c => bytesOfChar c
  | .stray b => [b]

end TypedIR.Text
