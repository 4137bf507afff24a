import TypedIR.Word

/-
  Decimal digits of binary floating point numbers.

  A finite number is `mantissa * 2^exponent` with natural `mantissa`, so every
  question about its decimals is a question about natural numbers. Two answers
  are given: the fewest digits that read back as the same number, and the
  nearest number with a given count of digits.
-/

namespace TypedIR.Decimal

/-- A positive decimal number `0.d₁d₂d₃… * 10^point`; the first digit is not
zero and neither is the last. Zero has no digits. -/
structure Digits where
  digits : List Nat := []
  point : Int := 0
  deriving DecidableEq, Repr, Inhabited

def digitsOf (n : Nat) : List Nat :=
  (Nat.toDigits 10 n).map fun c => c.toNat - 48

def dropTrailingZeros (ds : List Nat) : List Nat :=
  (ds.reverse.dropWhile (· == 0)).reverse

def Digits.ofScaled (n : Nat) (scale : Int) : Digits :=
  if n = 0 then {}
  else
    let ds := digitsOf n
    { digits := dropTrailingZeros ds, point := ds.length + scale }

/-- A positive number `mantissa * 2^exponent`, of a format whose mantissas
have `precision` bits. -/
structure Binary where
  mantissa : Nat
  exponent : Int
  precision : Nat := 53
  deriving DecidableEq, Repr, Inhabited

def Binary.ofBits (bits : UInt64) : Binary :=
  let e : Nat := (bits.toNat / 0x10000000000000) % 0x800
  let m := bits.toNat % 0x10000000000000
  if e = 0 then { mantissa := m, exponent := -1074 }
  else { mantissa := 0x10000000000000 + m, exponent := (e : Int) - 1075 }

def Binary.ofBits32 (bits : UInt32) : Binary :=
  let e : Nat := (bits.toNat / 0x800000) % 0x100
  let m := bits.toNat % 0x800000
  if e = 0 then { mantissa := m, exponent := -149, precision := 24 }
  else { mantissa := 0x800000 + m, exponent := (e : Int) - 150, precision := 24 }

/-- Whether the number is the least of its power of two, and floats below it
stand closer together than those above. -/
def Binary.isPower (b : Binary) : Bool :=
  b.mantissa == twoTo (b.precision - 1) && b.exponent != (if b.precision = 53 then -1074 else -149)

/-- A quotient of natural numbers. -/
structure Quotient where
  num : Nat
  den : Nat

def Quotient.binary (n : Nat) (e : Int) : Quotient :=
  if e < 0 then ⟨n, twoTo e.natAbs⟩ else ⟨n * twoTo e.natAbs, 1⟩

def Quotient.decimal (n : Nat) (e : Int) : Quotient :=
  if e < 0 then ⟨n, tenTo e.natAbs⟩ else ⟨n * tenTo e.natAbs, 1⟩

def Quotient.scaleDown (q : Quotient) (e : Int) : Quotient :=
  if e < 0 then ⟨q.num * tenTo e.natAbs, q.den⟩ else ⟨q.num, q.den * tenTo e.natAbs⟩

def Quotient.lt (a b : Quotient) : Bool := a.num * b.den < b.num * a.den

def Quotient.le (a b : Quotient) : Bool := a.num * b.den ≤ b.num * a.den

def Quotient.nearest (q : Quotient) : Nat :=
  let n := q.num / q.den
  let rest := 2 * (q.num % q.den)
  if rest < q.den then n
  else if q.den < rest then n + 1
  else if n % 2 = 0 then n else n + 1

/-- The interval of numbers that read back as `value`. -/
structure Interval where
  low : Quotient
  value : Quotient
  high : Quotient
  closed : Bool

def Interval.contains (i : Interval) (q : Quotient) : Bool :=
  if i.closed then i.low.le q && q.le i.high else i.low.lt q && q.lt i.high

/-- The interval that rounds to a float. Below a power of two the floats stand
twice as close, which `balanced` leaves out of account. -/
def Binary.interval (b : Binary) (balanced : Bool) : Interval :=
  let e := b.exponent - 2
  let below := if b.isPower && !balanced then 1 else 2
  { low := .binary (4 * b.mantissa - below) e, value := .binary (4 * b.mantissa) e,
    high := .binary (4 * b.mantissa + 2) e, closed := b.mantissa % 2 = 0 }

/-- How many digits stand before the point of a positive quotient, negative if
zeros follow the point. `guess` is a lower bound that is corrected upward. -/
def pointFrom (q : Quotient) : Nat → Int → Int
  | 0, guess => guess
  | n + 1, guess =>
    if q.lt (.decimal 1 guess) then guess else pointFrom q n (guess + 1)

def Quotient.point (q : Quotient) : Int :=
  let bits : Int := (q.num.log2 : Int) - (q.den.log2 : Int)
  -- 2^(bits-1) < q, and 0.30103 is a little more than log10 of 2
  let guess := (bits - 1) * 30103 / 100000 - 1
  pointFrom q 8 guess

/-- The digits with `n` places that lie in the interval and are nearest to its
value, if any do. -/
def shortestAt (i : Interval) (point : Int) (n : Nat) : Option Digits :=
  let scale := point - n
  let q := i.value.scaleDown scale
  let down := q.num / q.den
  let okDown := i.contains (.decimal down scale) && down != 0
  let okUp := i.contains (.decimal (down + 1) scale)
  if okDown && okUp then some (.ofScaled q.nearest scale)
  else if okDown then some (.ofScaled down scale)
  else if okUp then some (.ofScaled (down + 1) scale)
  else none

/-- The first count of places, from `n` on, at which some digits lie in the
interval. -/
def shortestFrom (i : Interval) (point : Int) : Nat → Nat → Digits
  | 0, n => (shortestAt i point n).getD (.ofScaled ((i.value.scaleDown (point - n)).nearest)
      (point - n))
  | fuel + 1, n => (shortestAt i point n).getD (shortestFrom i point fuel (n + 1))

def Binary.shortest (b : Binary) (balanced : Bool) : Digits :=
  if b.mantissa = 0 then {}
  else
    let i := b.interval balanced
    shortestFrom i i.value.point 17 1

/-- The number rounded to `n` significant digits, a half going to the even
digit. -/
def Binary.significant (b : Binary) (n : Nat) : Digits :=
  if b.mantissa = 0 then {}
  else
    let q := Quotient.binary b.mantissa b.exponent
    let scale := q.point - n
    .ofScaled (q.scaleDown scale).nearest scale

def Binary.places (b : Binary) (n : Nat) : Digits :=
  let q := Quotient.binary b.mantissa b.exponent
  .ofScaled (q.scaleDown (-(n : Int))).nearest (-(n : Int))

/-! ## The nearest float

The float nearest to a positive quotient of whole numbers.

A float with exponent `e` is a whole number of units `2^e`, of which there
are fewer than `2^53`; no exponent is below -1074. So the quotient is divided
by the unit of its size and rounded to a whole number, a half going to the
even one. Rounding up can carry into the next size, where the same bits mean
the same number.
-/

/-- The exponent of the unit for a quotient: the least, from -1074 on, at
which fewer than `2^53` units are not less than the quotient. -/
def unitExponent (q : Quotient) : Int :=
  let guess : Int := (Nat.log2 q.num : Int) - (Nat.log2 q.den : Int) - 53
  let tooMany (e : Int) : Bool := (Quotient.binary 0x20000000000000 e).le q
  let e := if tooMany guess then guess + 1 else guess
  max (-1074) e

/-- The bits of the float nearest to a quotient; nothing if it is too large
for a float. -/
def nearestBits? (q : Quotient) : Option UInt64 :=
  if q.num = 0 then some 0
  else
    let e := unitExponent q
    let unit := Quotient.binary 1 e
    let units := (Quotient.mk (q.num * unit.den) (q.den * unit.num)).nearest
    let bits := (e + 1074).toNat * 0x10000000000000 + units
    if bits < 0x7ff * 0x10000000000000 then some (UInt64.ofNat bits) else none

end TypedIR.Decimal
