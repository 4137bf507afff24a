import TypedIR.Engine.Failure
import TypedIR.Elementary

/-
  What the operators compute.

  Operands are registers in canonical form for the operation's representation,
  and so is every result. Signed integers are computed as integers and brought
  back to their width; a shift takes its count modulo the width; only division
  and remainder by zero fail.
-/

namespace TypedIR

/-- Powers of words by repeated squaring; `n` bounds the bits of the
exponent. -/
def powWordWithin : Nat → Word → Word → Word → Word
  | 0, acc, _, _ => acc
  | n + 1, acc, x, y =>
    if y = 0 then acc
    else powWordWithin n (if y &&& 1 = 1 then acc * x else acc) (x * x) (y >>> 1)

def powWord (x y : Word) : Word :=
  powWordWithin 64 1 x y

/-- `x` to the power of the signed number `y`; negative powers are those of
1 and -1, and 0 for everything else. -/
def powSigned (x y : Word) : Word :=
  if y.toInt < 0 then
    if x.toInt = 1 then 1
    else if x.toInt = -1 then (if y.toInt % 2 = 0 then 1 else x)
    else 0
  else powWord x y

/-- The remainder of `x` by `y` with the sign of `x`, exact for finite
numbers. -/
def remDouble (x y : Double) : Double :=
  let a := x.toFloat
  let b := y.toFloat
  if x.isNaN || y.isNaN || a.isInf || b == 0 then .outside
  else if b.isInf || a == 0 then x
  else
    -- both numbers are whole multiples of 2^-1074
    let scaled (w : Word) : Nat :=
      let e := (w.toNat / 0x10000000000000) % 0x800
      let m := w.toNat % 0x10000000000000
      if e = 0 then m else (0x10000000000000 + m) * twoTo (e - 1)
    let r := scaled x.bits % scaled y.bits
    let width := if r = 0 then 0 else r.log2 + 1
    let bits : Nat :=
      if width ≤ 52 then r
      else (width - 52) * 0x10000000000000 + (r / twoTo (width - 53) - 0x10000000000000)
    ⟨(x.bits &&& Double.signBit) ||| UInt64.ofNat bits⟩

/-- What a function gives for finite and infinite operands; one that is no
number is handed on. -/
def applied (f : Float → Float) (x : Double) : Double :=
  if x.isNaN then x.quiet
  else
    let z := f x.toFloat
    if z.isNaN then .outside else .ofFloat z

def resultOf (z : Float) : Double :=
  if z.isNaN then .outside else .ofFloat z

def shiftCount (r : Rep) (b : Word) : Nat :=
  (b &&& Word.ofInt (wrap64 (r.bits - 1))).toNat

def evalDouble (op : Opcode) (x y : Double) : Except Cause Double :=
  match op with
  | .add => .ok (.arithmetic (· + ·) x y)
  | .sub => .ok (.arithmetic (· - ·) x y)
  | .mul => .ok (.arithmetic (· * ·) x y)
  | .div => .ok (.arithmetic (· / ·) x y)
  | .rem => .ok (remDouble x y)
  | .pow => .ok (resultOf (Elementary.pow x.toFloat y.toFloat))
  | op => .error (.opOn op "float")

def evalSigned (op : Opcode) (r : Rep) (a b : Word) : Except Cause Word :=
  match op with
  | .add => .ok (a + b)
  | .sub => .ok (a - b)
  | .mul => .ok (a * b)
  | .div => if b = 0 then .error .divideByZero else .ok (Word.ofInt (a.toInt.tdiv b.toInt))
  | .rem => if b = 0 then .error .divideByZero else .ok (Word.ofInt (a.toInt.tmod b.toInt))
  | .pow => .ok (powSigned a b)
  | .and => .ok (a &&& b)
  | .or => .ok (a ||| b)
  | .xor => .ok (a ^^^ b)
  | .shl => .ok (a.shiftLeft (shiftCount r b))
  | .shr => .ok (a.shiftRightSigned (shiftCount r b))
  | op => .error (.opOn op "int")

def evalUnsigned (op : Opcode) (r : Rep) (a b : Word) : Except Cause Word :=
  match op with
  | .add => .ok (a + b)
  | .sub => .ok (a - b)
  | .mul => .ok (a * b)
  | .div => if b = 0 then .error .divideByZero else .ok (a / b)
  | .rem => if b = 0 then .error .divideByZero else .ok (a % b)
  | .pow => .ok (powWord a b)
  | .and => .ok (a &&& b)
  | .or => .ok (a ||| b)
  | .xor => .ok (a ^^^ b)
  | .shl => .ok (a.shiftLeft (shiftCount r b))
  | .shr => .ok (a.shiftRight (shiftCount r b))
  | op => .error (.opOn op "uint")

def evalBinary (op : Opcode) (r : Rep) (a b : Word) : Except Cause Word :=
  match r.cls with
  | .float => (evalDouble op (r.toDouble a) (r.toDouble b)).map r.ofDouble
  | .int => (evalSigned op r a b).map r.normalize
  | _ => (evalUnsigned op r a b).map r.normalize

def evalUnary (op : Opcode) (r : Rep) (a : Word) : Word :=
  if r.cls = .float then r.ofDouble (r.toDouble a).neg
  else if op = .neg then r.normalize (0 - a)
  else r.normalize (~~~a)

def order? (r : Rep) (a b : Word) : Option Ordering :=
  match r.cls with
  | .float =>
    let x := (r.toDouble a).toFloat
    let y := (r.toDouble b).toFloat
    if x.isNaN || y.isNaN then none
    else some (if x < y then .lt else if y < x then .gt else .eq)
  | .int => some (compare a.toInt b.toInt)
  | _ => some (compare a.toNat b.toNat)

/-- What a comparison says about an order; every opcode that is no other
comparison asks for inequality. -/
def holdsFor (op : Opcode) (o : Ordering) : Bool :=
  match op with
  | .lt => o == .lt
  | .le => o != .gt
  | .gt => o == .gt
  | .ge => o != .lt
  | .eq => o == .eq
  | _ => o != .eq

/-- A comparison in representation `r`. Operands that have no order are
unequal and in no other relation. -/
def evalCompare (op : Opcode) (r : Rep) (a b : Word) : Word :=
  match order? r a b with
  | none => Word.ofBool (op == .ne)
  | some o => Word.ofBool (holdsFor op o)

def truthy (r : Rep) (a : Word) : Bool :=
  if r.cls = .float then (r.toDouble a).toFloat != 0 else a != 0

/-- A scalar of representation `source` as one of representation `target`:
narrowing cuts, widening extends by the source's class, a float loses its
fraction. -/
def convertWord (source target : Rep) (a : Word) : Word :=
  if source.cls = .float then
    let x := source.toDouble a
    if target.cls = .float then target.ofDouble x
    else if target.cls = .int || x.toFloat < 0 then target.normalize x.toSigned
    else target.normalize x.toUnsigned
  else if target.cls = .float then
    if source.cls = .int then target.ofDouble (.ofSigned a)
    else target.ofDouble (.ofUnsigned a)
  else target.normalize a

def evalMathOp (op : MathOp) (x : Double) : Double :=
  match op with
  | .acos => applied Elementary.acos x
  | .asin => applied Elementary.asin x
  | .atan => applied Elementary.atan x
  | .atan2 => ⟨0⟩
  | .ceil => applied Float.ceil x
  | .cos => applied Elementary.cos x
  | .cosh => applied Elementary.cosh x
  | .exp => applied Elementary.exp x
  | .floor => applied Float.floor x
  | .log => applied Elementary.log x
  | .log10 => applied Elementary.log10 x
  | .rint => applied Elementary.roundEven x
  | .round => applied Float.round x
  | .sin => applied Elementary.sin x
  | .sinh => applied Elementary.sinh x
  | .sqrt => .arithmetic (fun v _ => v.sqrt) x x
  | .tan => applied Elementary.tan x
  | .tanh => applied Elementary.tanh x
  | .other _ => ⟨0⟩

def evalMath? (op : MathOp) (r : Rep) (args : List Word) : Option Word :=
  match op, args with
  | _, [] => none
  | .atan2, [_] => none
  | .atan2, x :: y :: _ => 
    some (r.ofDouble (resultOf (Elementary.atan2 (r.toDouble x).toFloat (r.toDouble y).toFloat)))
  | op, x :: _ => some (r.ofDouble (evalMathOp op (r.toDouble x)))

end TypedIR
