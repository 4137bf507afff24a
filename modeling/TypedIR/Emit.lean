import TypedIR.Engine.Basic

/-
  Emitting instructions into one function.

  An emitter works on a bench: the function under construction, the type table
  and the layouts. It checks its operands, converts them to the type the
  operation works on, and appends the instruction. A conversion is emitted
  only where the representations differ. An emitter that fails may leave
  conversions behind, but never the instruction itself.
-/

namespace TypedIR

open Text

/-- What an emitter works on. -/
structure Bench where
  target : Target
  types : TypeTable
  layouts : Layout.Cache
  func : Func
  notes : Array Trace.Note := #[]
  deriving Inhabited

abbrev EmitM := ExceptT Failure (StateM Bench)

namespace Emit

def fail {α : Type} (c : Cause) : EmitM α := do
  throw { cause := c, function := (← get).func.name }

def typeText (id : TypeId) : EmitM String := do
  return (← get).types.text id

def layoutOf (id : TypeId) : EmitM Layout.Answer := do
  let b ← get
  let (answer, layouts) := (Layout.layoutOf b.target b.types id).run b.layouts
  set { b with layouts }
  pure answer

def repOf (id : TypeId) : EmitM Rep := do
  let b ← get
  let (answer, layouts) := (b.types.findRep b.target id).run b.layouts
  set { b with layouts }
  match answer with
  | .ok r => pure r
  | .error c => throw { cause := c }

def value (v : ValueId) : EmitM ValueInfo := do
  match (← get).func.value? v with
  | some i => pure i
  | none => fail (.unknownValue v)

def knownLabel (l : LabelId) : EmitM Int := do
  match (← get).func.label? l with
  | some pos => pure pos
  | none => fail (.unknownLabel l)

def addValue (v : ValueInfo) : EmitM ValueId := do
  let b ← get
  let (id, func) := b.func.addValue v
  set { b with func }
  pure id

def temp (type : TypeId) : EmitM ValueId := do
  let rep ← repOf type
  addValue { type, rep, origin := .temp }

def push (i : Insn) : EmitM Unit :=
  modify fun b =>
    { b with
      func := b.func.push i
      notes := b.notes.push (.point .insn ("insn:" ++ i.op.name) b.func.name) }

/-- The value as one of another type, converted if the representations
differ. -/
def coerce (v : ValueId) (type : TypeId) : EmitM ValueId := do
  let vi ← value v
  if vi.type = type then return v
  let want ← repOf type
  if vi.rep = want then return v
  if !vi.rep.isScalar || !want.isScalar then
    fail (.notConvertible (← typeText vi.type) (← typeText type))
  let dest ← temp type
  push { op := .convert, dest, a := v, type, rep := vi.rep }
  pure dest

/-- What operand promotion looks at in a type. -/
structure Numeric where
  id : TypeId
  kind : Kind
  bits : Int
  native : Bool
  deriving DecidableEq, Repr, Inhabited

def Numeric.isAddress (n : Numeric) : Bool :=
  n.kind == .pointer || n.kind == .signature

def numeric? (type : TypeId) : EmitM (Option Numeric) := do
  let t := (← get).types
  let id := t.underlying type
  match t.find? id with
  | none => pure none
  | some d =>
    if d.isScalar then
      let bits := (← layoutOf id).bits
      pure (some { id, kind := d.kind, bits, native := d.width == 0 && d.isInteger })
    else pure none

/-- The type a single operand is promoted to: integers below 32 bits become
32-bit integers. Addresses are not promoted. -/
def Numeric.promoted? (n : Numeric) : Option TypeId :=
  match n.kind with
  | .int | .uint => some (if n.bits < 32 then Builtin.int32.id else n.id)
  | .float => some n.id
  | _ => none

def promoteUnary? (type : TypeId) : EmitM (Option TypeId) := do
  match ← numeric? type with
  | none => pure none
  | some n => pure n.promoted?

/-- The integer type of two promoted integers: the wider one decides width and
sign, unsigned wins at equal width, and a pointer-sized operand of the full
width makes the result pointer-sized. -/
def commonInteger (a b : Numeric) : TypeId :=
  let bits := max a.bits b.bits
  let unsigned :=
    if b.bits < a.bits then a.kind == .uint
    else if a.bits < b.bits then b.kind == .uint
    else a.kind == .uint || b.kind == .uint
  let native := (a.native && a.bits == bits) || (b.native && b.bits == bits)
  if native then (if unsigned then Builtin.nuint.id else Builtin.nint.id)
  else if bits = 64 then (if unsigned then Builtin.uint64.id else Builtin.int64.id)
  else if unsigned then Builtin.uint32.id
  else Builtin.int32.id

def Numeric.isFloat (n : Numeric) (bits : Int) : Bool :=
  n.kind == .float && n.bits == bits

/-- The type both operands of an operator are converted to. Floats win over
integers; an address plus or minus an integer stays an address, the difference
of two addresses is a pointer-sized integer. -/
def commonType (op : Opcode) (a b : TypeId) : EmitM TypeId := do
  match ← numeric? a, ← numeric? b with
  | some na, some nb =>
    if na.kind = .float ∨ nb.kind = .float then
      if na.isFloat 64 || nb.isFloat 64 then return Builtin.float64.id
      if na.kind = .pointer ∨ nb.kind = .pointer then fail (.pointerAndFloat op)
      return Builtin.float32.id
    if na.isAddress && !nb.isAddress && (op == .add || op == .sub) then return na.id
    if nb.isAddress && !na.isAddress && op == .add then return nb.id
    if na.isAddress && nb.isAddress && op == .sub then return Builtin.nint.id
    if na.isAddress || nb.isAddress then return Builtin.nuint.id
    let pa ← numeric? (na.promoted?.getD 0)
    let pb ← numeric? (nb.promoted?.getD 0)
    return commonInteger (pa.getD default) (pb.getD default)
  | _, _ => fail (.notNumeric op (← typeText a) (← typeText b))

/-- The value as an offset to an address: addresses stay, integers become
pointer-sized. -/
def coerceOffset (v : ValueId) (pointer : TypeId) : EmitM ValueId := do
  let vi ← value v
  match ← numeric? vi.type with
  | none => fail (.notAnOffset (← typeText pointer) (← typeText vi.type))
  | some n =>
    if n.isAddress then pure v
    else if n.kind = .uint then coerce v Builtin.nuint.id
    else coerce v Builtin.nint.id

/-- An arithmetic or bitwise operator. A shift works on the promoted type of
its left operand, everything else on the common type. -/
def binary (op : Opcode) (a b : ValueId) : EmitM ValueId := do
  let va ← value a
  let vb ← value b
  let type ←
    if op.isShift then
      match ← promoteUnary? va.type with
      | some t => pure t
      | none => fail (.operandNotNumeric op (← typeText va.type))
    else commonType op va.type vb.type
  let rep ← repOf type
  if rep.cls = .float ∧ op.isBitwise then fail (.notDefinedOn op (← typeText type))
  let coerceTo := if rep.cls = .pointer then coerceOffset else coerce
  let ca ← coerceTo a type
  let cb ← coerceTo b type
  let dest ← temp type
  push { op, dest, a := ca, b := cb, rep }
  pure dest

def unary (op : Opcode) (a : ValueId) : EmitM ValueId := do
  let va ← value a
  match ← promoteUnary? va.type with
  | none => fail (.operandNotNumeric op (← typeText va.type))
  | some type =>
    let rep ← repOf type
    if rep.cls = .float ∧ op = .not then fail (.notDefinedOn .not (← typeText type))
    let ca ← coerce a type
    let dest ← temp type
    push { op, dest, a := ca, rep }
    pure dest

def compare (op : Opcode) (a b : ValueId) : EmitM ValueId := do
  let va ← value a
  let vb ← value b
  let type ← commonType op va.type vb.type
  let rep ← repOf type
  let ca ← coerce a type
  let cb ← coerce b type
  let dest ← temp Builtin.bool.id
  push { op, dest, a := ca, b := cb, rep }
  pure dest

def test (op : Opcode) (a : ValueId) : EmitM ValueId := do
  let va ← value a
  if !va.rep.isScalar then fail (.operandNotScalar op (← typeText va.type))
  let dest ← temp Builtin.bool.id
  push { op, dest, a, rep := va.rep }
  pure dest

def convert (a : ValueId) (type : TypeId) : EmitM ValueId := do
  let va ← value a
  let want ← repOf type
  if !va.rep.isScalar || !want.isScalar then
    fail (.notConvertible (← typeText va.type) (← typeText type))
  let dest ← temp type
  push { op := .convert, dest, a, type, rep := va.rep }
  pure dest

/-- An assignment. Scalars are converted to the type of the destination;
structs must have one size. -/
def store (dest src : ValueId) : EmitM Unit := do
  let vd ← value dest
  let vs ← value src
  if vd.origin = .const then fail (.storeIntoConstant dest)
  if vd.rep.cls = .struct ∨ vs.rep.cls = .struct then
    if vd.rep ≠ vs.rep then fail (.storeMismatch (← typeText vs.type) (← typeText vd.type))
    push { op := .copy, dest, a := src, rep := vd.rep }
  else
    let cs ← coerce src vd.type
    push { op := .copy, dest, a := cs, rep := vd.rep }

def markAddressable (v : ValueId) : EmitM Unit :=
  modify fun b =>
    { b with func := { b.func with
        values := b.func.values.modify v ({ · with addressable := true }) } }

def addressOf (v : ValueId) : EmitM ValueId := do
  let vi ← value v
  if vi.origin = .const then fail (.addressOfConstant v)
  markAddressable v
  let b ← get
  let (pointer, types) := b.types.intern (.pointer vi.type)
  set { b with types }
  let dest ← temp pointer
  push { op := .addressOf, dest, a := v }
  pure dest

def pointerOperand (v : ValueId) : EmitM Unit := do
  let vi ← value v
  if vi.rep.cls ≠ .pointer then fail (.notPointer (← typeText vi.type))

def loadRel (ptr : ValueId) (offset : Int) (type : TypeId) : EmitM ValueId := do
  pointerOperand ptr
  let rep ← repOf type
  if rep.cls = .void then fail .loadVoid
  let dest ← temp type
  push { op := .loadRel, dest, a := ptr, offset, type, rep }
  pure dest

def storeRel (ptr : ValueId) (offset : Int) (v : ValueId) : EmitM Unit := do
  pointerOperand ptr
  let vi ← value v
  push { op := .storeRel, a := ptr, b := v, offset, type := vi.type, rep := vi.rep }

def loadElem (base index : ValueId) (type : TypeId) : EmitM ValueId := do
  pointerOperand base
  let index ← coerce index Builtin.nint.id
  let rep ← repOf type
  if rep.cls = .void then fail .loadVoidElement
  let dest ← temp type
  push { op := .loadElem, dest, a := base, b := index, type, rep }
  pure dest

def storeElem (base index v : ValueId) : EmitM Unit := do
  pointerOperand base
  let index ← coerce index Builtin.nint.id
  let vi ← value v
  push { op := .storeElem, a := base, b := index, args := [v], type := vi.type, rep := vi.rep }

def alloca (size : ValueId) : EmitM ValueId := do
  let n ← coerce size Builtin.nuint.id
  let dest ← temp Builtin.voidPtr.id
  push { op := .alloca, dest, a := n }
  pure dest

def placeLabel (l : LabelId) : EmitM Unit := do
  let pos ← knownLabel l
  if 0 ≤ pos then fail (.labelPlaced l)
  modify fun b =>
    { b with func := { b.func with
        labels := b.func.labels.setIfInBounds l b.func.insns.size } }
  push { op := .label, label := l }

def branch (l : LabelId) : EmitM Unit := do
  let _ ← knownLabel l
  push { op := .branch, label := l }

def branchOn (op : Opcode) (cond : ValueId) (l : LabelId) : EmitM Unit := do
  let _ ← knownLabel l
  let vc ← value cond
  if !vc.rep.isScalar then fail (.conditionNotScalar op (← typeText vc.type))
  push { op, a := cond, label := l, rep := vc.rep }

def ret (v : ValueId) : EmitM Unit := do
  let f := (← get).func
  if v = 0 then
    if f.ret.cls ≠ .void then fail .missingReturn
    push { op := .ret }
  else
    if f.ret.cls = .void then fail .voidReturn
    let result := (((← get).types.signature? f.sig).map (·.result)).getD 0
    let cv ← coerce v result
    push { op := .ret, a := cv, rep := f.ret }

/-- A return at the end of the stream, if control can get there; says whether
it can, and nothing if the search for the end crashed. -/
def defaultReturn : EmitM (Option Bool) := do
  let reachable := (← get).func.endReachable
  if reachable ≠ some true then return reachable
  push { op := .ret, implicit := true }
  pure reachable

def coerceArgs : List ValueId → List TypeId → EmitM (List ValueId)
  | a :: args, p :: params => do
    let c ← coerce a p
    return c :: (← coerceArgs args params)
  | _, _ => pure []

def callArgs (s : Signature) (args : List ValueId) : EmitM (List ValueId) := do
  if args.length ≠ s.params.length then fail (.callArgCount s.params.length args.length)
  coerceArgs args s.params

/-- A call of a function of the engine, whose signature and result are given.
A call without a result has a value all the same. -/
def call (callee : FuncId) (sig : TypeId) (rep : Rep) (args : List ValueId) : EmitM ValueId := do
  let s := ((← get).types.signature? sig).getD {}
  let args ← callArgs s args
  let dest ← temp s.result
  push { op := .call, dest, args, callee, type := sig, rep }
  pure dest

def callNative (native : String) (sig : TypeId) (args : List ValueId) : EmitM ValueId := do
  match (← get).types.signature? sig with
  | none => fail (.notSignature (← typeText sig))
  | some s =>
    if s.variadic then fail (.needsConcrete native)
    let args ← callArgs s args
    let rep ← repOf s.result
    let dest ← temp s.result
    push { op := .callNative, dest, args, native, type := sig, rep }
    pure dest

def allFloat32 : List ValueId → EmitM Bool
  | [] => pure true
  | a :: rest => do
    let va ← value a
    let rest ← allFloat32 rest
    pure (va.rep == { cls := .float, size := 4 } && rest)

def coerceAll (type : TypeId) : List ValueId → EmitM (List ValueId)
  | [] => pure []
  | a :: rest => do
    let c ← coerce a type
    return c :: (← coerceAll type rest)

/-- A floating point intrinsic: on 32-bit floats if all operands are such, on
64-bit floats otherwise. -/
def math (op : MathOp) (args : List ValueId) : EmitM ValueId := do
  if args.length ≠ op.arity then fail (.mathArgCount op args.length)
  let type := if ← allFloat32 args then Builtin.float32.id else Builtin.float64.id
  let args ← coerceAll type args
  let rep ← repOf type
  let dest ← temp type
  push { op := .math, dest, args, math := op, rep }
  pure dest

def createLocal (type : TypeId) : EmitM ValueId := do
  let rep ← repOf type
  if rep.cls = .void then fail .voidValue
  addValue { type, rep, origin := .local }

def constClassOk (held want : Class) : Bool :=
  if want = .float then held == .float
  else held == .int || held == .uint || held == .pointer

def constant (type : TypeId) (bits : Word) (want : Class) : EmitM ValueId := do
  let rep ← repOf type
  if !constClassOk rep.cls want then fail (.constClass want (← typeText type))
  addValue { type, rep, origin := .const, bits := rep.normalize bits }

def setAddressable (v : ValueId) : EmitM Unit := do
  let vi ← value v
  if vi.origin = .const then fail (.constantNotAddressable v)
  markAddressable v

def newLabel : EmitM LabelId := do
  let b ← get
  let (l, func) := b.func.addLabel
  set { b with func }
  pure l

end Emit

end TypedIR
