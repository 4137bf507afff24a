import TypedIR.Double
import TypedIR.Decimal.Digits

/-
  Elementary functions on doubles: powers, exponentials, logarithms,
  trigonometric and hyperbolic functions.

  Each is computed by a fixed sequence of rounded operations, so that results
  are the same to the last bit everywhere. Arguments are reduced to a small
  range, and a polynomial or a quotient of polynomials is evaluated there. A
  NaN that comes out of a function stands for an argument outside its domain.
-/

namespace TypedIR.Elementary

open Decimal

/-! ## Constants -/

def pi : Float := 3.14159265358979323846264338327950288

def infinity : Float := Float.ofBits 0x7FF0000000000000

def nan : Float := Float.ofBits 0x7FF8000000000001

def withSign (x sign : Float) : Float :=
  Float.ofBits ((x.toBits &&& 0x7FFFFFFFFFFFFFFF) ||| (sign.toBits &&& 0x8000000000000000))

def isNegative (x : Float) : Bool := x.toBits &&& 0x8000000000000000 != 0

def polynomial (coefficients : List Float) (x : Float) : Float :=
  match coefficients with
  | [] => 0
  | c :: rest => rest.foldl (fun acc c => acc * x + c) c

/-! ## Rounded once -/

def unitsOf (x : Float) : Int × Int :=
  let b := Binary.ofBits (x.toBits &&& 0x7FFFFFFFFFFFFFFF)
  (if isNegative x then -(b.mantissa : Int) else b.mantissa, b.exponent)

def nearest (n : Int) (e : Int) : Float :=
  let size := match nearestBits? (.binary n.natAbs e) with
    | some bits => Float.ofBits bits
    | none => infinity
  if n < 0 then -size else size

def mulAdd (x y z : Float) : Float :=
  let (mx, ex) := unitsOf x
  let (my, ey) := unitsOf y
  let (mz, ez) := unitsOf z
  let e := min (ex + ey) ez
  let n := mx * my * twoTo (ex + ey - e).toNat + mz * twoTo (ez - e).toNat
  if n = 0 then x * y + z else nearest n e

def roundEven (x : Float) : Float :=
  if x.isNaN || x.isInf || 4503599627370496.0 ≤ x.abs then x
  else
    let down := x.abs.floor
    let rest := x.abs - down
    let even := (down / 2).floor * 2 == down
    let r := if rest < 0.5 || (rest == 0.5 && even) then down else down + 1
    withSign r x

/-! ## Exponential and logarithm -/

def expSeries : List Float :=
  [2.4801587301587301587e-5, 1.9841269841269841270e-4, 1.3888888888888888889e-3,
   8.3333333333333333333e-3, 4.1666666666666666667e-2, 1.6666666666666666667e-1, 0.5, 1.0]

/-- The exponential of a finite number: a power of two, and a remainder of
which a sixteenth is put into the series and then squared four times. -/
def expFinite (x : Float) : Float :=
  if 7.09782712893384e+02 < x then infinity
  else
    let k := roundEven (x * 1.4426950408889634073599246810018920)
    if k < -1075 then 0
    else
      let r := mulAdd (-0.69314718055966295651160180568695068359375) k x
      let r := mulAdd (-0.28235290563031577122588448175013436025525412068e-12) k r
      let r := r * 0.0625
      let p := match expSeries with
        | [] => 0
        | c :: rest => rest.foldl (fun acc c => mulAdd acc r c) c
      let y := r * p
      let y := y * (2.0 + y)
      let y := y * (2.0 + y)
      let y := y * (2.0 + y)
      let y := y * (2.0 + y)
      (y + 1.0).scaleB (Int64.toInt k.toInt64)

def exp (x : Float) : Float :=
  if x.isNaN then x
  else if x.isInf then (if isNegative x then 0 else x)
  else expFinite x

def log (x : Float) : Float :=
  if x.isNaN || (x.isInf && 0 < x) then x
  else if x < 0 then nan
  else if x == 0 then -infinity
  else
    let (f1, e) := x.frExp
    let low := f1 < 0.70710678118654752440
    let f := (if low then f1 * 2 else f1) - 1
    let k := Float.ofInt (if low then e - 1 else e)
    let s := f / (2 + f)
    let s2 := s * s
    let s4 := s2 * s2
    let t1 := s2 * polynomial [1.479819860511658591e-01, 1.818357216161805012e-01,
      2.857142874366239149e-01, 6.666666666666735130e-01] s4
    let t2 := s4 * polynomial [1.531383769920937332e-01, 2.222219843214978396e-01,
      3.999999999940941908e-01] s4
    let r := t1 + t2
    let half := 0.5 * f * f
    k * 6.93147180369123816490e-01 -
      ((half - (s * (half + r) + k * 1.90821492927058770002e-10)) - f)

def log2 (x : Float) : Float :=
  if x.isNaN || x.isInf || x ≤ 0 then log x
  else
    let (f, e) := x.frExp
    if f == 0.5 then Float.ofInt (e - 1)
    else log f * 1.44269504088896340735992468100189214 + Float.ofInt e

def log10 (x : Float) : Float :=
  log2 x * 0.301029995663981195213738894724493027

/-! ## Powers -/

def isOdd (x : Float) : Bool :=
  x.abs < 9007199254740992.0 && x.floor == x && (x / 2).floor * 2 != x

/-- Multiplies the squares of `x * 2^e` that the bits of a number ask for into
`acc * 2^scale`; `n` bounds the bits. -/
def powBits : Nat → Nat → Float → Int → Float → Int → Float × Int
  | 0, _, _, _, acc, scale => (acc, scale)
  | n + 1, i, x, e, acc, scale =>
    if i = 0 then (acc, scale)
    else if e < -4096 || 4096 < e then (acc, scale + e)
    else
      let (acc, scale) := if i % 2 = 1 then (acc * x, scale + e) else (acc, scale)
      let x2 := x * x
      if x2 < 0.5 then powBits n (i / 2) (x2 + x2) (e * 2 - 1) acc scale
      else powBits n (i / 2) x2 (e * 2) acc scale

def powFinite (x y : Float) : Float :=
  let whole := y.abs.floor
  let rest := y.abs - whole
  if rest != 0 && x < 0 then nan
  else if 9223372036854775808.0 ≤ whole then
    if x == -1 then 1 else if (x.abs < 1) == (0 < y) then 0 else infinity
  else
    let up := 0.5 < rest
    let start := if rest != 0 then exp ((if up then rest - 1 else rest) * log x) else 1
    let times := whole.toUInt64.toNat + (if up then 1 else 0)
    let (f, e) := x.frExp
    let (acc, scale) := powBits 65 times f e start 0
    if y < 0 then (1 / acc).scaleB (-scale) else acc.scaleB scale

def pow (x y : Float) : Float :=
  if y == 0 || x == 1 then 1
  else if y == 1 then x
  else if x.isNaN || y.isNaN then nan
  else if x == 0 then
    let size := if y < 0 then infinity else 0
    if isOdd y then withSign size x else size
  else if y.isInf then
    if x == -1 then 1 else if (x.abs < 1) == (0 < y) then 0 else infinity
  else if x.isInf then
    let size := if y < 0 then 0 else infinity
    if x < 0 && isOdd y then -size else size
  else if y == 0.5 then x.sqrt
  else if y == -0.5 then 1 / x.sqrt
  else powFinite x y

/-! ## Trigonometric functions -/

def fourOverPi : Nat :=
  0x145F306DC9C882A53F84EAFA3EA69BB81B6C52B3278872083FCA2C757BD778AC36E48DC74849BA5C00C925DD413A32439FC3BD63962534E7DD1046BEA5D768909D338E04D68BEFC827323AC7306A673E93908BF177BF250763FF12FFFBC0B301FDE5E2316B414DA3EDA6CFD9E4F96136E9E8C7ECD3CBFD45AEA4F758FD7CBE2F67A0E73EF14A525D4D7F6BF623F1ABA10AC06608DF8F6D757

/-- The octant of an angle from `2^29` on and what is left, a multiple of an
eighth of the circle taken away. -/
def reduceLarge (x : Float) : Nat × Float :=
  let bits := x.toBits.toNat
  let start := bits / 0x10000000000000 - 1014
  let m := 0x10000000000000 + bits % 0x10000000000000
  let window := (fourOverPi / twoTo (1280 - 192 - start)) % twoTo 192
  let product := (window * m / twoTo 64) % twoTo 128
  let j := product / twoTo 125
  let fraction := product * 8 % twoTo 128
  let high := fraction / twoTo 64
  let zeros := 63 - Nat.log2 high
  let mantissa := (fraction * twoTo (zeros + 1) % twoTo 128) / twoTo 76
  let z := Float.ofBits (UInt64.ofNat ((1022 - zeros) * 0x10000000000000 + mantissa))
  if j % 2 = 1 then ((j + 1) % 8, (z - 1) * (pi / 4)) else (j, z * (pi / 4))

def reduce (x : Float) : Nat × Float :=
  if 536870912.0 ≤ x then reduceLarge x
  else
    let j := (x * 1.27323954473516268615107010698140931).toUInt64.toNat
    let j := if j % 2 = 1 then j + 1 else j
    let y := Float.ofNat j
    (j % 8, ((x - y * 7.85398125648498535156e-1) - y * 3.77489470793079817668e-8)
      - y * 2.69515142907905952645e-15)

def sinNear (z : Float) : Float :=
  let zz := z * z
  z + z * zz * polynomial [1.58962301576546568060e-10, -2.50507477628578072866e-8,
    2.75573136213857245213e-6, -1.98412698295895385996e-4, 8.33333333332211858878e-3,
    -1.66666666666666307295e-1] zz

def cosNear (z : Float) : Float :=
  let zz := z * z
  1.0 - 0.5 * zz + zz * zz * polynomial [-1.13585365213876817300e-11, 2.08757008419747316778e-9,
    -2.75573141792967388112e-7, 2.48015872888517045348e-5, -1.38888888888730564116e-3,
    4.16666666666665929218e-2] zz

def sin (x : Float) : Float :=
  if x == 0 || x.isNaN then x
  else if x.isInf then nan
  else
    let (j, z) := reduce x.abs
    let y := if j % 4 = 2 then cosNear z else sinNear z
    if (x < 0) != (3 < j) then -y else y

def cos (x : Float) : Float :=
  if x.isNaN then x
  else if x.isInf then nan
  else
    let (j, z) := reduce x.abs
    let y := if j % 4 = 2 then sinNear z else cosNear z
    if (3 < j) != (1 < j % 4) then -y else y

def tan (x : Float) : Float :=
  if x == 0 || x.isNaN then x
  else if x.isInf then nan
  else
    let (j, z) := reduce x.abs
    let zz := z * z
    let y :=
      if 1e-14 < zz then
        z + z * (zz * polynomial [-1.30936939181383734205e4, 1.15351664838587416140e6,
            -1.79565251976484877988e7] zz /
          polynomial [1.0, 1.36812963470692954678e4, -1.32089234440210967447e6,
            2.50083801823357915839e7, -5.38695755929454629881e7] zz)
      else z
    let y := if j % 4 = 2 then -1 / y else y
    if x < 0 then -y else y

def atanNear (x : Float) : Float :=
  let z := x * x
  let z := z * polynomial [-8.750608600031904122785e-01, -1.615753718733365076637e+01,
      -7.500855792314704667340e+01, -1.228866684490136173410e+02, -6.485021904942025371773e+01] z /
    polynomial [1.0, 2.485846490142306297962e+01, 1.650270098316988542046e+02,
      4.328810604912902668951e+02, 4.853903996359136964868e+02, 1.945506571482613964425e+02] z
  x * z + x

def atanPositive (x : Float) : Float :=
  if x ≤ 0.66 then atanNear x
  else if 2.41421356237309504880 < x then pi / 2 - atanNear (1 / x) + 6.123233995736765886130e-17
  else pi / 4 + atanNear ((x - 1) / (x + 1)) + 0.5 * 6.123233995736765886130e-17

def atan (x : Float) : Float :=
  if x == 0 then x else if 0 < x then atanPositive x else -(atanPositive (-x))

def asin (x : Float) : Float :=
  if x == 0 then x
  else
    let a := x.abs
    if 1 < a then nan
    else
      let root := (1 - a * a).sqrt
      let y := if 0.7 < a then pi / 2 - atanPositive (root / a) else atanPositive (a / root)
      if x < 0 then -y else y

def acos (x : Float) : Float := pi / 2 - asin x

def atan2 (y x : Float) : Float :=
  if y.isNaN || x.isNaN then nan
  else if y == 0 then
    if 0 ≤ x && !isNegative x then withSign 0 y else withSign pi y
  else if x == 0 then withSign (pi / 2) y
  else if x.isInf then
    if 0 < x then withSign (if y.isInf then pi / 4 else 0) y
    else withSign (if y.isInf then 2.35619449019234492884698253745962716 else pi) y
  else if y.isInf then withSign (pi / 2) y
  else
    let q := atan (y / x)
    if x < 0 then (if q ≤ 0 then q + pi else q - pi) else q

/-! ## Hyperbolic functions -/

def sinh (x : Float) : Float :=
  let a := if x < 0 then -x else x
  let y :=
    if 21 < a then exp a * 0.5
    else if 0.5 < a then
      let e := exp a
      (e - 1 / e) * 0.5
    else
      let sq := a * a
      polynomial [-0.2630563213397497062819489e+2, -0.2894211355989563807284660366e+4,
          -0.8991272022039509355398013511e+5, -0.6307673640497716991184787251e+6] sq * a /
        polynomial [1.0, -0.173678953558233699533450911e+3, 0.1521517378790019070696485176e+5,
          -0.6307673640497716991212077277e+6] sq
  if x < 0 then -y else y

def cosh (x : Float) : Float :=
  let a := x.abs
  if 21 < a then exp a * 0.5
  else
    let e := exp a
    (e + 1 / e) * 0.5

def tanh (x : Float) : Float :=
  let a := x.abs
  if 0.5 * 8.8029691931113054295988e+01 < a then (if x < 0 then -1 else 1)
  else if 0.625 ≤ a then
    let z := 1 - 2 / (exp (2 * a) + 1)
    if x < 0 then -z else z
  else if x == 0 then x
  else
    let s := x * x
    x + x * s * polynomial [-9.64399179425052238628e-1, -9.92877231001918586564e1,
        -1.61468768441708447952e3] s /
      polynomial [1.0, 1.12811678491632931402e2, 2.23548839060100448583e3,
        4.84406305325125486048e3] s

end TypedIR.Elementary
