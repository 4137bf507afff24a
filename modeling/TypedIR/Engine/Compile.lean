import TypedIR.Engine.Emitters

/-
  Compiling: the stream is checked, and values that live in memory get a place
  in the frame.

  A function compiles if every branch goes to a label that is placed and every
  callee is there. Compiling a compiled function does nothing.
-/

namespace TypedIR

/-- What is wrong with the jumps and calls of a function: the first branch to a
label that is not placed, or the first call of a function that is not there.
The instructions are numbered from `pc`. -/
def Engine.checkInsns (e : Engine) (f : Func) : Nat → List Insn → Except Failure Unit
  | _, [] => .ok ()
  | pc, i :: rest =>
    if i.op.isBranch ∧ (f.target? i).isNone then
      .error { cause := .unplacedLabel pc i.label, function := f.name }
    else if i.op = .call then
      match e.findFunc i.callee with
      | .ok _ => e.checkInsns f (pc + 1) rest
      | .error err => .error (err.within f.name)
    else e.checkInsns f (pc + 1) rest

def ValueInfo.needsSlot (v : ValueInfo) : Bool :=
  v.addressable || v.rep.cls == .struct

def Layout.Answer.slotAlign : Layout.Answer → Int
  | .ok l => max l.align 1
  | .error _ => 1

/-- Gives each value that needs one a slot, one after the other from `size`
on, and the size of the frame. -/
def placeSlots (layout : TypeId → StateM Layout.Cache Layout.Answer) :
    Int → List ValueInfo → StateM Layout.Cache (List ValueInfo × Int)
  | size, [] => pure ([], size)
  | size, v :: rest => do
    if v.needsSlot then
      let start := Layout.roundUp size (← layout v.type).slotAlign
      let (rest, size) ← placeSlots layout (wrap64 (start + max v.rep.size 1)) rest
      pure ({ v with slot := some start } :: rest, size)
    else
      let (rest, size) ← placeSlots layout size rest
      pure ({ v with slot := none } :: rest, size)

namespace EngineM

def compileOpen (fn : FuncId) : EngineM Unit := do
  let f ← openFunc fn
  ask (·.checkInsns f 0 f.insns.toList)
  let e ← get
  let ((values, frameSize), layouts) :=
    (placeSlots (Layout.layoutOf e.target e.types) 0 (f.values.toList.drop 1)).run e.layouts
  let f := { f with
    values := #[ValueInfo.placeholder] ++ values.toArray, frameSize, compiled := true }
  set { e with layouts, funcs := e.funcs.setIfInBounds (fn - 1) f }

def compile (fn : FuncId) : EngineM Unit := do
  let f ← func fn
  if f.compiled then return
  note (.opened .function "engine_compile")
  let closing := note (.closed "" [("func", f.name)])
  try compileOpen fn catch err => do
    closing
    throw err
  closing

end EngineM

end TypedIR
