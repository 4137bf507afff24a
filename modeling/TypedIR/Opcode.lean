import TypedIR.Text.Numeral

/-
  Opcodes of the instruction stream and the floating point intrinsics.

  Both are numbered, since an image names them by number. A number that names
  no opcode is kept, so that an image can be read and written back unchanged.
-/

namespace TypedIR

open Text

/-- The opcodes. -/
inductive Opcode where
  | nop
  | add
  | sub
  | mul
  | div
  | rem
  | pow
  | and
  | or
  | xor
  | shl
  | shr
  | neg
  | not
  | lt
  | le
  | gt
  | ge
  | eq
  | ne
  | toBool
  | toNotBool
  | convert
  | copy
  | addressOf
  | loadRel
  | storeRel
  | loadElem
  | storeElem
  | alloca
  | label
  | branch
  | branchIf
  | branchIfNot
  | ret
  | call
  | callNative
  | math
  | other (code : UInt8)
  deriving DecidableEq, Repr, Inhabited

namespace Opcode

def all : List Opcode :=
  [.nop, .add, .sub, .mul, .div, .rem, .pow, .and, .or, .xor, .shl, .shr, .neg, .not, .lt, .le,
   .gt, .ge, .eq, .ne, .toBool, .toNotBool, .convert, .copy, .addressOf, .loadRel, .storeRel,
   .loadElem, .storeElem, .alloca, .label, .branch, .branchIf, .branchIfNot, .ret, .call,
   .callNative, .math]

def ofCode (n : UInt8) : Opcode :=
  (all[n.toNat]?).getD (.other n)

def code : Opcode → UInt8
  | .nop => 0
  | .add => 1
  | .sub => 2
  | .mul => 3
  | .div => 4
  | .rem => 5
  | .pow => 6
  | .and => 7
  | .or => 8
  | .xor => 9
  | .shl => 10
  | .shr => 11
  | .neg => 12
  | .not => 13
  | .lt => 14
  | .le => 15
  | .gt => 16
  | .ge => 17
  | .eq => 18
  | .ne => 19
  | .toBool => 20
  | .toNotBool => 21
  | .convert => 22
  | .copy => 23
  | .addressOf => 24
  | .loadRel => 25
  | .storeRel => 26
  | .loadElem => 27
  | .storeElem => 28
  | .alloca => 29
  | .label => 30
  | .branch => 31
  | .branchIf => 32
  | .branchIfNot => 33
  | .ret => 34
  | .call => 35
  | .callNative => 36
  | .math => 37
  | .other n => n

def name : Opcode → String
  | .nop => "nop"
  | .add => "add"
  | .sub => "sub"
  | .mul => "mul"
  | .div => "div"
  | .rem => "rem"
  | .pow => "pow"
  | .and => "and"
  | .or => "or"
  | .xor => "xor"
  | .shl => "shl"
  | .shr => "shr"
  | .neg => "neg"
  | .not => "not"
  | .lt => "lt"
  | .le => "le"
  | .gt => "gt"
  | .ge => "ge"
  | .eq => "eq"
  | .ne => "ne"
  | .toBool => "to_bool"
  | .toNotBool => "to_not_bool"
  | .convert => "convert"
  | .copy => "store"
  | .addressOf => "address_of"
  | .loadRel => "load_relative"
  | .storeRel => "store_relative"
  | .loadElem => "load_elem"
  | .storeElem => "store_elem"
  | .alloca => "alloca"
  | .label => "label"
  | .branch => "branch"
  | .branchIf => "branch_if"
  | .branchIfNot => "branch_if_not"
  | .ret => "return"
  | .call => "call"
  | .callNative => "call_native"
  | .math => "math"
  | .other n => "Op(" ++ decimalNat n.toNat ++ ")"

def ofName? (s : String) : Option Opcode :=
  all.find? fun op => op.name == s

/-- Whether the opcode is an arithmetic or bitwise operation of two
operands. -/
def isBinary : Opcode → Bool
  | .add | .sub | .mul | .div | .rem | .pow | .and | .or | .xor | .shl | .shr => true
  | _ => false

def isBitwise : Opcode → Bool
  | .and | .or | .xor | .shl | .shr => true
  | _ => false

def isShift : Opcode → Bool
  | .shl | .shr => true
  | _ => false

def isCompare : Opcode → Bool
  | .lt | .le | .gt | .ge | .eq | .ne => true
  | _ => false

def isBranch : Opcode → Bool
  | .branch | .branchIf | .branchIfNot => true
  | _ => false

end Opcode

/-- The floating point intrinsics. -/
inductive MathOp where
  | acos
  | asin
  | atan
  | atan2
  | ceil
  | cos
  | cosh
  | exp
  | floor
  | log
  | log10
  | rint
  | round
  | sin
  | sinh
  | sqrt
  | tan
  | tanh
  | other (code : UInt8)
  deriving DecidableEq, Repr, Inhabited

namespace MathOp

def all : List MathOp :=
  [.acos, .asin, .atan, .atan2, .ceil, .cos, .cosh, .exp, .floor, .log, .log10, .rint, .round,
   .sin, .sinh, .sqrt, .tan, .tanh]

def ofCode (n : UInt8) : MathOp :=
  if n = 0 then .other 0 else (all[n.toNat - 1]?).getD (.other n)

def code : MathOp → UInt8
  | .acos => 1
  | .asin => 2
  | .atan => 3
  | .atan2 => 4
  | .ceil => 5
  | .cos => 6
  | .cosh => 7
  | .exp => 8
  | .floor => 9
  | .log => 10
  | .log10 => 11
  | .rint => 12
  | .round => 13
  | .sin => 14
  | .sinh => 15
  | .sqrt => 16
  | .tan => 17
  | .tanh => 18
  | .other n => n

def name : MathOp → String
  | .acos => "acos"
  | .asin => "asin"
  | .atan => "atan"
  | .atan2 => "atan2"
  | .ceil => "ceil"
  | .cos => "cos"
  | .cosh => "cosh"
  | .exp => "exp"
  | .floor => "floor"
  | .log => "log"
  | .log10 => "log10"
  | .rint => "rint"
  | .round => "round"
  | .sin => "sin"
  | .sinh => "sinh"
  | .sqrt => "sqrt"
  | .tan => "tan"
  | .tanh => "tanh"
  | .other n => "MathOp(" ++ decimalNat n.toNat ++ ")"

def ofName? (s : String) : Option MathOp :=
  all.find? fun op => op.name == s

def arity : MathOp → Nat
  | .atan2 => 2
  | _ => 1

end MathOp

end TypedIR
