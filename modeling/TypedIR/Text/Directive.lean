import TypedIR.Decimal.Text
import TypedIR.Text.Utf8

/-
  Format directives: one datum written under flags, a width and a precision.

  A directive is `%`, flags, a width, a precision and a verb. A verb that does
  not fit the datum is not an error: the text then says which verb met which
  datum. Widths count characters, not bytes.
-/

namespace TypedIR.Text

open Decimal

/-- What a directive writes. -/
inductive Datum where
  | int (i : Int)
  | uint (n : Nat)
  | rune (n : Nat)
  | bytes (bs : Bytes)
  | float (x : Float)
  deriving Inhabited

def Datum.typeName : Datum → String
  | .int _ => "int64"
  | .uint _ => "uint64"
  | .rune _ => "int32"
  | .bytes _ => "string"
  | .float _ => "float64"

/-- The flags, width and precision of a directive. -/
structure Flags where
  sharp : Bool := false
  zero : Bool := false
  plus : Bool := false
  minus : Bool := false
  space : Bool := false
  width : Option Nat := none
  prec : Option Nat := none
  deriving Repr, Inhabited

namespace Flags

def zeroPadded (fl : Flags) : Bool := fl.zero && !fl.minus

def padding (fl : Flags) (n : Nat) : Bytes :=
  List.replicate n (if fl.zeroPadded then 48 else 32)

def pad (fl : Flags) (bs : Bytes) : Bytes :=
  let fill := fl.padding (fl.width.getD 0 - (pieces bs).length)
  if fl.minus then bs ++ fill else fill ++ bs

def padBlank (fl : Flags) (bs : Bytes) : Bytes :=
  { fl with zero := false }.pad bs

end Flags

def baseDigits (base : Nat) (upper : Bool) (n : Nat) : List Char :=
  let ds := Nat.toDigits base n
  if upper then ds.map Char.toUpper else ds

/-- A whole number: the magnitude's digits, brought to the precision by zeros,
with the mark of the base and the sign in front. -/
def integerText (fl : Flags) (base : Nat) (upper negative : Bool) (magnitude : Nat) : Bytes :=
  if fl.prec = some 0 && magnitude = 0 then
    List.replicate (fl.width.getD 0) 32
  else
    let least : Nat :=
      match fl.prec with
      | some p => p
      | none =>
        if fl.zeroPadded then
          match fl.width with
          | some w => if negative || fl.plus || fl.space then w - 1 else w
          | none => 0
        else 0
    let ds := baseDigits base upper magnitude
    let ds := List.replicate (least - ds.length) '0' ++ ds
    let ds :=
      if fl.sharp then
        if base = 8 then (if ds.head? = some '0' then ds else '0' :: ds)
        else if base = 16 then '0' :: (if upper then 'X' else 'x') :: ds
        else ds
      else ds
    let ds :=
      if negative then '-' :: ds
      else if fl.plus then '+' :: ds
      else if fl.space then ' ' :: ds
      else ds
    fl.padBlank (bytesOf (String.ofList ds))

/-- Adds what the sharp flag asks of a float: a decimal point, and in the
general style the zeros up to the precision. `text` carries no sign. -/
def sharpened (digits : Int) (text : List Char) : List Char :=
  let body := text.takeWhile fun c => c != 'e' && c != 'E'
  let tail := text.drop body.length
  let ds := body.filter (· != '.')
  let counted := (ds.dropWhile (· == '0')).length
  let missing := digits - counted
  if body.contains '.' then
    body ++ List.replicate missing.toNat '0' ++ tail
  else
    let missing := if body == ['0'] then missing - 1 else missing
    body ++ ['.'] ++ List.replicate missing.toNat '0' ++ tail

def floatDirective (fl : Flags) (style : Style) (upper : Bool) (fallback : Option Nat)
    (x : Float) : Bytes :=
  let prec := match fl.prec with
    | some p => some p
    | none => fallback
  let negative := isNegative x && !x.isNaN
  let sign : List Char :=
    if negative then ['-'] else if fl.plus then ['+'] else if fl.space then [' '] else []
  if x.isNaN then
    fl.padBlank (bytesOf (String.ofList (sign ++ "NaN".toList)))
  else if x.isInf then
    let sign := if sign.isEmpty then ['+'] else sign
    fl.padBlank (bytesOf (String.ofList (sign ++ "Inf".toList)))
  else
    let text := (floatText x.abs style prec upper).toList
    let text :=
      if fl.sharp then
        let digits : Int :=
          if style = .general then (match prec with | some p => p | none => 6) else 0
        sharpened digits text
      else text
    let width := fl.width.getD 0
    if fl.zeroPadded && !sign.isEmpty && sign.length + text.length < width then
      bytesOf (String.ofList sign) ++ fl.padding (width - sign.length - text.length) ++
        bytesOf (String.ofList text)
    else fl.pad (bytesOf (String.ofList (sign ++ text)))

def truncated (n : Option Nat) (bs : Bytes) : Bytes :=
  match n with
  | none => bs
  | some n => ((pieces bs).take n).flatMap Piece.bytes

def plainDirective (fl : Flags) : Datum → Bytes
  | .int i => integerText fl 10 false (decide (i < 0)) i.natAbs
  | .uint n => integerText fl 10 false false n
  | .rune n => integerText fl 10 false false n
  | .bytes bs => fl.pad (truncated fl.prec bs)
  | .float x => floatDirective fl .general false none x

def misfit (fl : Flags) (verb : Char) (d : Datum) : Bytes :=
  bytesOf ("%!" ++ String.singleton verb ++ "(" ++ d.typeName ++ "=") ++ plainDirective fl d
    ++ bytesOf ")"

def directive (fl : Flags) (verb : Char) (d : Datum) : Bytes :=
  match d, verb with
  | .int i, 'd' => integerText fl 10 false (decide (i < 0)) i.natAbs
  | .uint n, 'd' => integerText fl 10 false false n
  | .uint n, 'o' => integerText fl 8 false false n
  | .uint n, 'x' => integerText fl 16 false false n
  | .uint n, 'X' => integerText fl 16 true false n
  | .rune n, 'c' => fl.pad (bytesOfChar (Char.ofNat n))
  | .bytes bs, 's' => fl.pad (truncated fl.prec bs)
  | .float x, 'f' => floatDirective fl .positional false (some 6) x
  | .float x, 'e' => floatDirective fl .exponent false (some 6) x
  | .float x, 'E' => floatDirective fl .exponent true (some 6) x
  | .float x, 'g' => floatDirective fl .general false none x
  | .float x, 'G' => floatDirective fl .general true none x
  | d, verb => misfit fl verb d

def readFlags : Flags → List Char → Flags × List Char
  | fl, '#' :: rest => readFlags { fl with sharp := true } rest
  | fl, '0' :: rest => readFlags { fl with zero := true } rest
  | fl, '+' :: rest => readFlags { fl with plus := true } rest
  | fl, '-' :: rest => readFlags { fl with minus := true } rest
  | fl, ' ' :: rest => readFlags { fl with space := true } rest
  | fl, rest => (fl, rest)

/-- Reads a number. A number that grows past a million with digits still to
come spoils the rest of the directive. -/
def readNumber (acc : Option Nat) : List Char → Option Nat × List Char
  | c :: rest =>
    if c.isDigit then
      if 1000000 < acc.getD 0 then (none, [])
      else readNumber (some (acc.getD 0 * 10 + (c.toNat - 48))) rest
    else (acc, c :: rest)
  | [] => (acc, [])

def readPrecision : List Char → Option Nat × List Char
  | '.' :: rest =>
    let (n, rest) := readNumber none rest
    (some (n.getD 0), rest)
  | rest => (none, rest)

/-- Writes one datum under the directive whose text after the percent sign is
given. A directive that ends before its verb leaves the datum over. -/
def writeDirective (spec : List Char) (d : Datum) : Bytes :=
  let (fl, rest) := readFlags {} spec
  let (width, rest) := readNumber none rest
  let (prec, rest) := readPrecision rest
  match rest with
  | [] =>
    bytesOf ("%!(NOVERB)%!(EXTRA " ++ d.typeName ++ "=") ++ plainDirective {} d ++ bytesOf ")"
  | verb :: rest =>
    directive { fl with width, prec } verb d ++ bytesOf (String.ofList rest)

end TypedIR.Text
