import TypedIR.Decimal.Digits
import TypedIR.Text.Numeral

/-
  Floating point numbers as text.

  Three styles: with an exponent (`1.5e+06`), positional (`1500000`), and the
  general one, which takes the exponent for numbers below 1e-4 and for those
  with more digits before the point than the precision allows. A precision
  that is left open asks for the fewest digits that read back and allows six
  digits before the point.
-/

namespace TypedIR.Decimal

open Text

/-- How a number is laid out. -/
inductive Style where
  | exponent
  | positional
  | general
  deriving DecidableEq, Repr, Inhabited

def digitChar (d : Nat) : Char := Char.ofNat (48 + d)

def Digits.at (d : Digits) (i : Int) : Char :=
  if i < 0 then '0' else digitChar (d.digits.getD i.toNat 0)

def Digits.exponent (d : Digits) : Int :=
  if d.digits.isEmpty then 0 else d.point - 1

def Digits.exponentText (d : Digits) (prec : Nat) (mark : Char) : String :=
  let tail := (List.range prec).map fun (i : Nat) => d.at (i + 1)
  let e := d.exponent
  String.singleton (d.at 0) ++ (if prec = 0 then "" else "." ++ String.ofList tail)
    ++ String.singleton mark ++ (if e < 0 then "-" else "+")
    ++ padLeft 2 '0' (decimalNat e.natAbs)

def Digits.positionalText (d : Digits) (prec : Nat) : String :=
  let whole :=
    if 0 < d.point then
      String.ofList ((List.range d.point.toNat).map fun (i : Nat) => d.at i)
    else "0"
  let tail := (List.range prec).map fun (i : Nat) => d.at (d.point + i)
  whole ++ (if prec = 0 then "" else "." ++ String.ofList tail)

/-- The general text: `limit` is the first exponent that is written out, and
`prec` the number of significant digits kept in exponent notation. -/
def Digits.generalText (d : Digits) (limit : Int) (prec : Nat) (mark : Char) : String :=
  let e := d.point - 1
  if e < -4 ∨ limit ≤ e then
    d.exponentText ((min prec d.digits.length) - 1) mark
  else d.positionalText ((d.digits.length : Int) - d.point).toNat

/-- The magnitude of a finite number in a style with a precision; no precision
asks for the fewest digits that read back. -/
def magnitudeText (b : Binary) (style : Style) (prec : Option Nat) (upper : Bool) : String :=
  let mark := if upper then 'E' else 'e'
  match style, prec with
  | .exponent, some p => (b.significant (p + 1)).exponentText p mark
  | .exponent, none =>
    let d := b.shortest false
    d.exponentText (d.digits.length - 1) mark
  | .positional, some p => (b.places p).positionalText p
  | .positional, none =>
    let d := b.shortest false
    d.positionalText ((d.digits.length : Int) - d.point).toNat
  | .general, some p =>
    let p := max p 1
    let d := b.significant p
    let limit : Int :=
      if p > d.digits.length ∧ (d.digits.length : Int) ≥ d.point then d.digits.length else p
    d.generalText limit p mark
  | .general, none =>
    let d := b.shortest false
    d.generalText 6 d.digits.length mark

def isNegative (x : Float) : Bool := x.toBits.toNat ≥ 0x8000000000000000

/-- A number with its sign; the sign of a positive number is left out, but an
infinity always has one. -/
def floatText (x : Float) (style : Style) (prec : Option Nat) (upper : Bool) : String :=
  if x.isNaN then "NaN"
  else if x.isInf then (if isNegative x then "-Inf" else "+Inf")
  else
    let text := magnitudeText (.ofBits (x.toBits &&& 0x7FFFFFFFFFFFFFFF)) style prec upper
    if isNegative x then "-" ++ text else text

def shortText (x : Float) : String :=
  floatText x .general none false

/-- The general text with the fewest digits that read back as a 32-bit
float. -/
def shortText32 (x : Float32) : String :=
  let wide := x.toFloat
  if wide.isNaN || wide.isInf then shortText wide
  else
    let text := magnitudeText (.ofBits32 (x.toBits &&& 0x7FFFFFFF)) .general none false
    if isNegative wide then "-" ++ text else text

end TypedIR.Decimal
