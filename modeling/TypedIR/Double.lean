import TypedIR.Word

/-
  Floating point numbers of 64 bits, as their bits.

  Bits that stand for no number keep their sign and their payload when they are
  moved, widened or narrowed, and an operation hands on the first operand that
  is no number. What arithmetic gives where no number is right, and what a
  function gives outside its domain, are told apart by their bits too.
-/

namespace TypedIR

/-- A floating point number, by its bits. -/
structure Double where
  bits : Word
  deriving DecidableEq, Repr, Inhabited

namespace Double

def signBit : Word := 0x8000000000000000

def magnitude (x : Double) : Word := x.bits &&& 0x7FFFFFFFFFFFFFFF

def isNegative (x : Double) : Bool := x.bits &&& signBit != 0

def isNaN (x : Double) : Bool := 0x7FF0000000000000 < x.magnitude

def toFloat (x : Double) : Float := Float.ofBits x.bits

def ofFloat (x : Float) : Double := ⟨x.toBits⟩

def undefined : Double := ⟨0xFFF8000000000000⟩

def outside : Double := ⟨0x7FF8000000000001⟩

def quiet (x : Double) : Double := ⟨x.bits ||| 0x0008000000000000⟩

def neg (x : Double) : Double := ⟨x.bits ^^^ signBit⟩

def arithmetic (f : Float → Float → Float) (x y : Double) : Double :=
  if x.isNaN then x.quiet
  else if y.isNaN then y.quiet
  else
    let z := f x.toFloat y.toFloat
    if z.isNaN then undefined else ofFloat z

def ofSingle (b : UInt32) : Double :=
  if 0x7F800000 < b &&& 0x7FFFFFFF then
    let sign : Word := (b &&& 0x80000000).toUInt64 <<< 32
    let payload : Word := (b &&& 0x007FFFFF).toUInt64 <<< 29
    ⟨sign ||| 0x7FF8000000000000 ||| payload⟩
  else ofFloat (Float32.ofBits b).toFloat

def toSingle (x : Double) : UInt32 :=
  if x.isNaN then
    let sign : UInt32 := (x.bits >>> 32).toUInt32 &&& 0x80000000
    let payload : UInt32 := (x.bits >>> 29).toUInt32 &&& 0x007FFFFF
    sign ||| 0x7FC00000 ||| payload
  else x.toFloat.toFloat32.toBits

def ofSigned (w : Word) : Double := ofFloat w.toInt64.toFloat

def ofUnsigned (w : Word) : Double := ofFloat w.toFloat

/-- The integer part of a number of the machine, as a signed word. Where it
does not fit the word has its highest bit set and no other. -/
def wholeOf (x : Float) : Word :=
  if -9223372036854775808.0 ≤ x && x < 9223372036854775808.0 then x.toInt64.toUInt64
  else signBit

def toSigned (x : Double) : Word := wholeOf x.toFloat

/-- The integer part as an unsigned word: the upper half of the words is
reached from the lower one, and negative numbers wrap around. -/
def toUnsigned (x : Double) : Word :=
  let v := x.toFloat
  if v < 9223372036854775808.0 then wholeOf v
  else wholeOf (v - 9223372036854775808.0) ||| signBit

end Double

end TypedIR
