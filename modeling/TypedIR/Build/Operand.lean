import TypedIR.Build.Function

/-
  Constants and operands.

  An operand is a value of the function or a host value that becomes a
  constant. A constant takes the type of what it is combined with; a number
  that the type cannot hold is a problem. Everything here keeps its problem
  with the function and then gives the invalid value.
-/

namespace TypedIR

open Text

/-- The range of the integers of a width, signed or not. Widths other than 8,
16 and 32 bits have the range of a word. -/
def fitsSigned (n : Int) (width : Int) : Bool :=
  if width = 8 ∨ width = 16 ∨ width = 32 then
    decide (-(twoTo (width.toNat - 1)) ≤ n) && decide (n < twoTo (width.toNat - 1))
  else true

def fitsUnsigned (n : Nat) (width : Int) : Bool :=
  if width = 8 ∨ width = 16 ∨ width = 32 then decide (n < twoTo width.toNat) else true

def encodeUnsigned (n : Nat) (width : Int) : Int :=
  let same := wrap64 n
  if width < 64 ∧ (Word.shiftLeft 1 (width - 1).toNat - 1).toNat < n then
    wrap64 (same - wrap64 (twoTo width.toNat))
  else same

def decodeUnsigned (n : Int) (width : Int) : Nat :=
  if 64 ≤ width then (Word.ofInt n).toNat
  else (Word.ofInt n &&& (Word.shiftLeft 1 width.toNat - 1)).toNat

namespace BuildM

/-- The value an engine operation gives, as a value of the builder. Problems of
the operation are kept with the function. -/
def emit (f : FnId) (op : String) (act : FuncId → EngineM ValueId) : BuildM Val :=
  guarded f {} do
    let id ← onFunc f op act
    wrapValue f id

def reject (f : FnId) (op : String) (c : Complaint) : BuildM Val := do
  keep f (.complaint op c)
  pure {}

def isIntType (t : Ty) : BuildM Bool := do
  return t.kind == .bool || (← isInteger t) || t.kind == .pointer

def isUnsignedLike (t : Ty) : BuildM Bool := do
  return (← isUnsigned t) || t.kind == .pointer

def constBits (f : FnId) (t : Ty) (n : Int) : BuildM Val :=
  emit f "const" fun id => EngineM.constInt id t.id n

/-- A constant of an unsigned type from a number that is not negative. A type
of no width has no highest bit to look at. -/
def constUnsigned (f : FnId) (t : Ty) (n : Nat) : BuildM Val := do
  let width ← widthOf t
  if !fitsUnsigned n width then
    reject f "const" (.outOfMachineRange (decimalNat n) (← tyText t))
  else if width < 64 ∧ (Word.shiftLeft 1 width.toNat - 1).toNat < n then
    reject f "const" (.outOfRange (decimalNat n) (← tyText t))
  else if width ≤ 0 then throw .crashed
  else constBits f t (encodeUnsigned n width)

def constSigned (f : FnId) (t : Ty) (n : Int) : BuildM Val := do
  if fitsSigned n (← widthOf t) then constBits f t n
  else reject f "const" (.outOfMachineRange (decimal n) (← tyText t))

def constInt (f : FnId) (t : Ty) (n : Int) : BuildM Val := do
  if !(← isIntType t) then reject f "const" (.notIntegerType (← tyText t))
  else if ← isUnsignedLike t then
    if n < 0 then reject f "const" (.outOfRange (decimal n) (← tyText t))
    else constUnsigned f t n.toNat
  else constSigned f t n

def constUint (f : FnId) (t : Ty) (n : Nat) : BuildM Val := do
  if !(← isIntType t) then reject f "const" (.notIntegerType (← tyText t))
  else if ← isSigned t then
    if n < 0x8000000000000000 then constSigned f t n
    else reject f "const" (.outOfMachineRange (decimalNat n) (← tyText t))
  else constUnsigned f t n

def constFloat (f : FnId) (t : Ty) (x : Double) : BuildM Val := do
  if !(← isFloat t) then reject f "const" (.notFloatType (← tyText t))
  else if (← widthOf t) = 32 then
    emit f "const" fun id => EngineM.constFloat32 id t.id x.toSingle
  else emit f "const" fun id => EngineM.constFloat64 id t.id x.bits

def constBool (f : FnId) (b : Bool) : BuildM Val := do
  constBits f (Builtin.bool.ty (← function f).runtime) (if b then 1 else 0)

def null (f : FnId) : BuildM Val := do
  constBits f (Builtin.voidPtr.ty (← function f).runtime) 0

def const (f : FnId) (t : Ty) (x : HostValue) : BuildM Val := do
  match ← isFloat t, x.toDouble? with
  | true, some v => constFloat f t v
  | _, _ =>
    match x with
    | .bool b =>
      if t.kind = .bool then constBool f b else constInt f t (if b then 1 else 0)
    | .int k n => if k.signed then constInt f t n else constUint f t n.toNat
    | .float32 _ | .float64 _ => constFloat f t (x.toDouble?.getD ⟨0⟩)
    | x => reject f "const" (.noConstant (← tyText t) x.typeName)

/-- The type a host value takes next to a value of type `like`: next to
pointers and structs it is a plain number. -/
def literalType (rt : RuntimeId) (x : HostValue) (like : Ty) : Ty :=
  match like.kind, x with
  | .pointer, .float64 _ | .struct, .float64 _ | .void, .float64 _ => Builtin.float64.ty rt
  | .pointer, _ | .struct, _ | .void, _ => Builtin.nint.ty rt
  | _, _ => like

/-- An operand: a value of the function, or a constant like `like`. Gives
nothing if it is none, and the problem is with the function then. -/
def operand? (f : FnId) (op : String) (x : HostValue) (like : Ty) : BuildM (Option Val) := do
  match x with
  | .value v =>
    if !v.valid then
      keep f (.complaint op .invalidOperand)
      pure none
    else if v.fn ≠ some f then
      keep f (.complaint op (.foreignOperand (← valText v)))
      pure none
    else pure (some v)
  | .nothing =>
    keep f (.complaint op .missingOperand)
    pure none
  | x =>
    let c ← const f (literalType (← function f).runtime x like) x
    pure (if c.valid then some c else none)

/-- Operands of which each has its type to be like; `none` from the first that
is none. -/
def operands? (f : FnId) (op : String) : List (HostValue × Ty) → BuildM (Option (List ValueId))
  | [] => pure (some [])
  | (x, like) :: rest => do
    match ← operand? f op x like with
    | none => pure none
    | some v =>
      match ← operands? f op rest with
      | none => pure none
      | some vs => pure (some (v.id :: vs))

/-- The function of a value that an operation is applied to. A value of no
function answers nothing; the invalid value of a function is a problem. -/
def subject? (v : Val) (op : String) : BuildM (Option FnId) := do
  match v.fn with
  | none => pure none
  | some f =>
    if v.valid then pure (some f)
    else
      keep f (.complaint op .invalidValue)
      pure none

def isConstant (v : Val) : BuildM Bool := do
  match v.fn with
  | some f =>
    let s ← function f
    return v.valid && ((← engine s.runtime).constant? s.id v.id).isSome
  | none => pure false

def constBits? (v : Val) : BuildM (Option Int) := do
  match v.fn with
  | some f =>
    if !(← isConstant v) || !(← isIntType v.type) then return none
    let s ← function f
    return (← engine s.runtime).constInt? s.id v.id
  | none => pure none

def constInt? (v : Val) : BuildM (Option Int) := do
  match ← constBits? v with
  | none => pure none
  | some n =>
    if ← isUnsignedLike v.type then
      let u := decodeUnsigned n (← widthOf v.type)
      pure (if u < 0x8000000000000000 then some u else none)
    else pure (some n)

def constUint? (v : Val) : BuildM (Option Nat) := do
  match ← constBits? v with
  | none => pure none
  | some n =>
    if ← isUnsignedLike v.type then return some (decodeUnsigned n (← widthOf v.type))
    else pure (if 0 ≤ n then some n.toNat else none)

def constFloat? (v : Val) : BuildM (Option Double) := do
  match v.fn with
  | some f =>
    if !v.valid || !(← isFloat v.type) then return none
    let s ← function f
    let e ← engine s.runtime
    if (← widthOf v.type) = 32 then
      return (e.constFloat? s.id v.id 4).map fun w => .ofSingle w.toUInt32
    else return (e.constFloat? s.id v.id 8).map Double.mk
  | none => pure none

def constBool? (v : Val) : BuildM (Option Bool) := do
  if v.kind ≠ .bool then return none
  return (← constBits? v).map (· != 0)

def numeric? (v : Val) : BuildM (Option HostValue) := do
  if ← isFloat v.type then return (← constFloat? v).map fun x => .float64 x.bits
  else if ← isUnsignedLike v.type then return (← constUint? v).map fun n => .int .uint64 n
  else if v.kind = .bool then return (← constBool? v).map .bool
  else return (← constInt? v).map fun n => .int .int64 n

end BuildM

end TypedIR
