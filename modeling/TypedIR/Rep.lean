import TypedIR.Double
import TypedIR.Text.Numeral

/-
  Representations: how a value of a type is held in a register or in memory.

  A representation is a class and a size in bytes. The interpreter looks at
  representations only, never at the type table. A register is in canonical
  form when its bits are what `Rep.normalize` makes of them: integers are cut
  to their width and extended by their sign or by zeros, and a 32-bit float
  keeps its low half only.
-/

namespace TypedIR

open Text

/-- The machine-level category of a value. -/
inductive Class where
  | void
  | int
  | uint
  | float
  | pointer
  | struct
  | other (code : UInt8)
  deriving DecidableEq, Repr, Inhabited

namespace Class

def ofCode (n : UInt8) : Class :=
  match n.toNat with
  | 0 => .void
  | 1 => .int
  | 2 => .uint
  | 3 => .float
  | 4 => .pointer
  | 5 => .struct
  | _ => .other n

def code : Class → UInt8
  | .void => 0
  | .int => 1
  | .uint => 2
  | .float => 3
  | .pointer => 4
  | .struct => 5
  | .other n => n

def name : Class → String
  | .void => "void"
  | .int => "int"
  | .uint => "uint"
  | .float => "float"
  | .pointer => "ptr"
  | .struct => "struct"
  | .other n => "Class(" ++ decimalNat n.toNat ++ ")"

end Class

/-- The representation of a type: its class and its size in bytes. -/
structure Rep where
  cls : Class := .void
  size : Int := 0
  deriving DecidableEq, Repr, Inhabited

namespace Rep

def isScalar (r : Rep) : Bool :=
  r.cls != .void && r.cls != .struct

def bits (r : Rep) : Int :=
  wrap64 (r.size * 8)

def normalize (r : Rep) (w : Word) : Word :=
  match r.cls with
  | .int => w.signExtend r.bits
  | .uint | .pointer => w &&& Word.lowMask r.bits
  | .float => if r.size = 4 then w &&& 0xFFFFFFFF else w
  | _ => w

def ofDouble (r : Rep) (x : Double) : Word :=
  if r.size = 4 then x.toSingle.toUInt64 else x.bits

def toDouble (r : Rep) (w : Word) : Double :=
  if r.size = 4 then Double.ofSingle w.toUInt32 else ⟨w⟩

/-- Whether a scalar of this size can be moved between a register and
memory. -/
def fitsRegister (r : Rep) : Bool :=
  0 ≤ r.size && r.size ≤ 8

def encode (r : Rep) (w : Word) : List UInt8 :=
  littleEndian r.size.toNat w

def decode (r : Rep) (bytes : List UInt8) : Word :=
  r.normalize (ofLittleEndian bytes)

end Rep

end TypedIR
