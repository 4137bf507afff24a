/-
  Numerals: the ways a number is written in listings and messages.

  Every text here is plain ASCII. A numeral has no leading zeros of its own;
  widths are added by the padding functions.
-/

namespace TypedIR.Text

def decimalNat (n : Nat) : String :=
  String.ofList (Nat.toDigits 10 n)

def decimal (i : Int) : String :=
  if i < 0 then "-" ++ decimalNat i.natAbs else decimalNat i.natAbs

def signedDecimal (i : Int) : String :=
  if i < 0 then decimal i else "+" ++ decimal i

def hexNat (n : Nat) : String :=
  String.ofList (Nat.toDigits 16 n)

def markedHex (n : Nat) : String :=
  "0x" ++ hexNat n

def repeated (n : Nat) (c : Char) : String :=
  String.ofList (List.replicate n c)

def padLeft (width : Nat) (c : Char) (s : String) : String :=
  repeated (width - s.length) c ++ s

def padRight (width : Nat) (s : String) : String :=
  s ++ repeated (width - s.length) ' '

def hexByte (b : UInt8) : String :=
  padLeft 2 '0' (hexNat b.toNat)

def hexBytes (bs : List UInt8) : String :=
  String.join (bs.map hexByte)

def groupThousands (digits : List Char) : List Char :=
  let rec go : Nat → List Char → List Char
    | _, [] => []
    | 0, c :: rest => ',' :: c :: go 2 rest
    | k + 1, c :: rest => c :: go k rest
  (go 3 digits.reverse).reverse

def groupedDecimal (n : Nat) : String :=
  String.ofList (groupThousands (Nat.toDigits 10 n))

def truth (b : Bool) : String :=
  if b then "true" else "false"

end TypedIR.Text
