import TypedIR.Emit
import TypedIR.Engine.Types

/-
  The emitters as operations of the engine: each names the function it builds
  into, which must be open, and changes no other function.
-/

namespace TypedIR

namespace EngineM

/-- Runs an emitter on an open function. What the emitter did before it failed
is kept. -/
def emitInto {α : Type} (fn : FuncId) (act : EmitM α) : EngineM α := do
  let f ← openFunc fn
  let e ← get
  let (answer, b) := (act.run { target := e.target, types := e.types, layouts := e.layouts,
                                func := f } : Except Failure α × Bench)
  set { e with
    types := b.types
    layouts := b.layouts
    funcs := e.funcs.setIfInBounds (fn - 1) b.func
    notes := e.notes ++ b.notes }
  match answer with
  | .ok a => pure a
  | .error err => throw err

def createValue (fn : FuncId) (type : TypeId) : EngineM ValueId :=
  emitInto fn (Emit.createLocal type)

def paramValue (fn : FuncId) (i : Int) : EngineM ValueId := do
  let f ← func fn
  match (if i < 0 then none else f.params[i.toNat]?) with
  | some v => pure v
  | none => failIn f (.paramRange i f.params.length)

def valueInfo (fn : FuncId) (v : ValueId) : EngineM ValueInfo := do
  let f ← func fn
  match f.value? v with
  | some i => pure i
  | none => failIn f (.unknownValue v)

def setAddressable (fn : FuncId) (v : ValueId) : EngineM Unit :=
  emitInto fn (Emit.setAddressable v)

def constInt (fn : FuncId) (type : TypeId) (n : Int) : EngineM ValueId :=
  emitInto fn (Emit.constant type (Word.ofInt n) .int)

def constFloat32 (fn : FuncId) (type : TypeId) (bits : UInt32) : EngineM ValueId := do
  let r ← repOf type
  if r.size ≠ 4 then fail (.constWidth 32 ((← get).typeText type))
  emitInto fn (Emit.constant type bits.toUInt64 .float)

def constFloat64 (fn : FuncId) (type : TypeId) (bits : Word) : EngineM ValueId := do
  let r ← repOf type
  if r.size ≠ 8 then fail (.constWidth 64 ((← get).typeText type))
  emitInto fn (Emit.constant type bits .float)

def newLabel (fn : FuncId) : EngineM LabelId :=
  emitInto fn Emit.newLabel

def binary (fn : FuncId) (op : Opcode) (a b : ValueId) : EngineM ValueId := do
  if !op.isBinary then fail (.notBinary op)
  emitInto fn (Emit.binary op a b)

def unary (fn : FuncId) (op : Opcode) (a : ValueId) : EngineM ValueId := do
  if op ≠ .neg ∧ op ≠ .not then fail (.notUnary op)
  emitInto fn (Emit.unary op a)

def compare (fn : FuncId) (op : Opcode) (a b : ValueId) : EngineM ValueId := do
  if !op.isCompare then fail (.notComparison op)
  emitInto fn (Emit.compare op a b)

def toBool (fn : FuncId) (a : ValueId) : EngineM ValueId :=
  emitInto fn (Emit.test .toBool a)

def toNotBool (fn : FuncId) (a : ValueId) : EngineM ValueId :=
  emitInto fn (Emit.test .toNotBool a)

def convert (fn : FuncId) (a : ValueId) (type : TypeId) : EngineM ValueId :=
  emitInto fn (Emit.convert a type)

def store (fn : FuncId) (dest src : ValueId) : EngineM Unit :=
  emitInto fn (Emit.store dest src)

def addressOf (fn : FuncId) (v : ValueId) : EngineM ValueId :=
  emitInto fn (Emit.addressOf v)

def loadRel (fn : FuncId) (ptr : ValueId) (offset : Int) (type : TypeId) : EngineM ValueId :=
  emitInto fn (Emit.loadRel ptr offset type)

def storeRel (fn : FuncId) (ptr : ValueId) (offset : Int) (v : ValueId) : EngineM Unit :=
  emitInto fn (Emit.storeRel ptr offset v)

def loadElem (fn : FuncId) (base index : ValueId) (type : TypeId) : EngineM ValueId :=
  emitInto fn (Emit.loadElem base index type)

def storeElem (fn : FuncId) (base index v : ValueId) : EngineM Unit :=
  emitInto fn (Emit.storeElem base index v)

def alloca (fn : FuncId) (size : ValueId) : EngineM ValueId :=
  emitInto fn (Emit.alloca size)

def placeLabel (fn : FuncId) (l : LabelId) : EngineM Unit :=
  emitInto fn (Emit.placeLabel l)

def branch (fn : FuncId) (l : LabelId) : EngineM Unit :=
  emitInto fn (Emit.branch l)

def branchIf (fn : FuncId) (cond : ValueId) (l : LabelId) : EngineM Unit :=
  emitInto fn (Emit.branchOn .branchIf cond l)

def branchIfNot (fn : FuncId) (cond : ValueId) (l : LabelId) : EngineM Unit :=
  emitInto fn (Emit.branchOn .branchIfNot cond l)

def ret (fn : FuncId) (v : ValueId) : EngineM Unit :=
  emitInto fn (Emit.ret v)

def defaultReturn (fn : FuncId) : EngineM (Option Bool) :=
  emitInto fn Emit.defaultReturn

def call (fn callee : FuncId) (args : List ValueId) : EngineM ValueId := do
  let _ ← openFunc fn
  let target ← func callee
  emitInto fn (Emit.call callee target.sig target.ret args)

def callNative (fn : FuncId) (name : String) (sig : TypeId) (args : List ValueId) :
    EngineM ValueId :=
  emitInto fn (Emit.callNative name sig args)

def math (fn : FuncId) (op : MathOp) (args : List ValueId) : EngineM ValueId :=
  emitInto fn (Emit.math op args)

end EngineM

namespace Engine

def isAddressable (e : Engine) (fn : FuncId) (v : ValueId) : Bool :=
  match e.findFunc fn with
  | .ok f => ((f.value? v).map (·.addressable)).getD false
  | .error _ => false

def constant? (e : Engine) (fn : FuncId) (v : ValueId) : Option ValueInfo :=
  match e.findFunc fn with
  | .ok f => (f.value? v).filter (·.origin == .const)
  | .error _ => none

def constInt? (e : Engine) (fn : FuncId) (v : ValueId) : Option Int :=
  match e.constant? fn v with
  | some i => if i.rep.cls = .float then none else some (i.bits.signExtend i.rep.bits).toInt
  | none => none

def constFloat? (e : Engine) (fn : FuncId) (v : ValueId) (size : Int) : Option Word :=
  match e.constant? fn v with
  | some i => if i.rep = { cls := .float, size := size } then some i.bits else none
  | none => none

def labelPlaced (e : Engine) (fn : FuncId) (l : LabelId) : Bool :=
  match e.findFunc fn with
  | .ok f => match f.label? l with
    | some pos => decide (0 ≤ pos)
    | none => false
  | .error _ => false

end Engine

end TypedIR
