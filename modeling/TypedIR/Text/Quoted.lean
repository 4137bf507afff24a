import TypedIR.Text.Numeral
import TypedIR.Text.Printable
import TypedIR.Text.Utf8

/-
  Quoted texts: a text between double quotes in which everything that does not
  print is written as an escape.
-/

namespace TypedIR.Text

def quotedChar (c : Char) : String :=
  if c == Char.ofNat 34 then "\\\""
  else if c == '\\' then "\\\\"
  else if isPrintable c then String.singleton c
  else match c.toNat with
    | 7 => "\\a"
    | 8 => "\\b"
    | 12 => "\\f"
    | 10 => "\\n"
    | 13 => "\\r"
    | 9 => "\\t"
    | 11 => "\\v"
    | n =>
      if n < 0x20 || n == 0x7F then "\\x" ++ padLeft 2 '0' (hexNat n)
      else if n < 0x10000 then "\\u" ++ padLeft 4 '0' (hexNat n)
      else "\\U" ++ padLeft 8 '0' (hexNat n)

def charQuoted (c : Char) : String :=
  let inner :=
    if c == Char.ofNat 39 then "\\'"
    else if c == Char.ofNat 34 then String.singleton c
    else quotedChar c
  "'" ++ inner ++ "'"

def quotedPiece : Piece → String
  | .char c => quotedChar c
  | .stray b => "\\x" ++ hexByte b

def quoted (s : String) : String :=
  "\"" ++ String.join (s.toList.map quotedChar) ++ "\""

def quotedBytes (bs : Bytes) : String :=
  "\"" ++ String.join ((pieces bs).map quotedPiece) ++ "\""

end TypedIR.Text
