import TypedIR.Build.Operand

/-
  Operations on values: arithmetic, comparison, logic, conversion, memory and
  fields.

  Each operation gives a value; where it cannot, the problem is kept with the
  function and the value is invalid. Operations on a value of no function do
  nothing.
-/

namespace TypedIR

open Text

namespace BuildM

/-- Applies an operation to a valid value; `fallback` is the answer for any
other value. -/
def onValue (v : Val) (op : String) (fallback : Val) (act : FnId → BuildM Val) : BuildM Val := do
  match ← subject? v op with
  | some f => act f
  | none => pure fallback

def runtimeOf (f : FnId) : BuildM RuntimeId := do
  return (← function f).runtime

def declare (f : FnId) (t : Ty) : BuildM Val := do
  if t.valid then emit f "declare" fun id => EngineM.createValue id t.id
  else reject f "declare" .invalidType

def store (v : Val) (x : HostValue) : BuildM Val :=
  onValue v "store" v fun f => do
    match ← operand? f "store" x v.type with
    | none => pure v
    | some o =>
      guarded f () (onFunc f "store" fun id => EngineM.store id v.id o.id)
      pure v

def address (v : Val) : BuildM Val :=
  onValue v "address" {} fun f => emit f "address" fun id => EngineM.addressOf id v.id

def isAddressable (v : Val) : BuildM Bool := do
  match v.fn with
  | some f =>
    let s ← function f
    return v.valid && (← engine s.runtime).isAddressable s.id v.id
  | none => pure false

def setAddressable (v : Val) : BuildM Val :=
  onValue v "set_addressable" v fun f => do
    guarded f () (onFunc f "set_addressable" fun id => EngineM.setAddressable id v.id)
    pure v

def toBool (v : Val) : BuildM Val :=
  onValue v "to_bool" {} fun f => do
    if v.kind = .bool then pure v else emit f "to_bool" fun id => EngineM.toBool id v.id

def toNotBool (v : Val) : BuildM Val :=
  onValue v "to_not_bool" {} fun f => emit f "to_not_bool" fun id => EngineM.toNotBool id v.id

def cast (v : Val) (t : Ty) : BuildM Val :=
  onValue v "cast" {} fun f => do
    if t.valid then emit f "cast" fun id => EngineM.convert id v.id t.id
    else reject f "cast" .invalidTargetType

def binary (name : String) (op : Opcode) (v : Val) (x : HostValue) : BuildM Val :=
  onValue v name {} fun f => do
    match ← operand? f name x v.type with
    | none => pure {}
    | some o => emit f name fun id => EngineM.binary id op v.id o.id

def compare (name : String) (op : Opcode) (v : Val) (x : HostValue) : BuildM Val :=
  onValue v name {} fun f => do
    match ← operand? f name x v.type with
    | none => pure {}
    | some o => emit f name fun id => EngineM.compare id op v.id o.id

def unary (name : String) (op : Opcode) (v : Val) : BuildM Val :=
  onValue v name {} fun f => emit f name fun id => EngineM.unary id op v.id

/-- A logical connective: both operands are brought to truth values, and so is
the result. -/
def logical (name : String) (op : Opcode) (v : Val) (x : HostValue) : BuildM Val :=
  onValue v name {} fun f => do
    match ← operand? f name x (Builtin.bool.ty (← runtimeOf f)) with
    | none => pure {}
    | some o =>
      let l ← toBool v
      let r ← toBool o
      toBool (← binary name op l (.value r))

def math (f : FnId) (op : MathOp) (args : List HostValue) : BuildM Val := do
  let like := Builtin.float64.ty (← runtimeOf f)
  match ← operands? f op.name (args.map (·, like)) with
  | none => pure {}
  | some vs => emit f op.name fun id => EngineM.math id op vs

/-- The type at the end of a pointer: the one that is asked for, or the one it
points to. -/
def pointee? (f : FnId) (v : Val) (op : String) (override : Option Ty) : BuildM (Option Ty) := do
  match override.filter (·.valid) with
  | some t => pure (some t)
  | none =>
    match ← targetOf? v.type with
    | none =>
      keep f (.complaint op (.notPointer (← tyText v.type)))
      pure none
    | some t =>
      if t.kind = .void then
        keep f (.complaint op (.needsTarget (← tyText v.type)))
        pure none
      else pure (some t)

def mload (v : Val) (offset : Int) (t : Ty) : BuildM Val :=
  onValue v "mload" {} fun f => do
    if t.valid then emit f "mload" fun id => EngineM.loadRel id v.id offset t.id
    else reject f "mload" .invalidType

def mstore (v : Val) (x : HostValue) (offset : Int) : BuildM Val :=
  onValue v "mstore" v fun f => do
    let word := Builtin.nint.ty (← runtimeOf f)
    let like := ((← targetOf? v.type).filter (·.kind != .void)).getD word
    match ← operand? f "mstore" x like with
    | none => pure v
    | some o =>
      guarded f () (onFunc f "mstore" fun id => EngineM.storeRel id v.id offset o.id)
      pure v

def deref (v : Val) (t : Option Ty) : BuildM Val :=
  onValue v "deref" {} fun f => do
    match ← pointee? f v "deref" t with
    | none => pure {}
    | some target => mload v 0 target

def loadElem (v : Val) (index : HostValue) (t : Option Ty) : BuildM Val :=
  onValue v "load_elem" {} fun f => do
    match ← pointee? f v "load_elem" t with
    | none => pure {}
    | some target =>
      match ← operand? f "load_elem" index (Builtin.nint.ty (← runtimeOf f)) with
      | none => pure {}
      | some i => emit f "load_elem" fun id => EngineM.loadElem id v.id i.id target.id

def fitted (v : Val) (t : Ty) : BuildM Val := do
  if ← compatible v.type t then pure v else cast v t

def storeElem (v : Val) (index x : HostValue) : BuildM Val :=
  onValue v "store_elem" v fun f => do
    match ← pointee? f v "store_elem" none with
    | none => pure v
    | some target =>
      match ← operand? f "store_elem" index (Builtin.nint.ty (← runtimeOf f)) with
      | none => pure v
      | some i =>
        match ← operand? f "store_elem" x target with
        | none => pure v
        | some o =>
          let o ← fitted o target
          if o.valid then
            guarded f () (onFunc f "store_elem" fun id => EngineM.storeElem id v.id i.id o.id)
          pure v

def fieldPlace? (f : FnId) (v : Val) (op : String) (i : Int) : BuildM (Option (Ty × Int)) := do
  if v.kind ≠ .struct then
    keep f (.complaint op (.notStruct (← tyText v.type)))
    return none
  guarded f none do
    let t ← fieldType v.type i
    let off ← fieldOffset v.type i
    pure (some (t, off))

def field (v : Val) (i : Int) : BuildM Val :=
  onValue v "field" {} fun f => do
    match ← fieldPlace? f v "field" i with
    | none => pure {}
    | some (t, off) => mload (← address v) off t

def setField (v : Val) (i : Int) (x : HostValue) : BuildM Val :=
  onValue v "set_field" v fun f => do
    match ← fieldPlace? f v "set_field" i with
    | none => pure v
    | some (t, off) =>
      match ← operand? f "set_field" x t with
      | none => pure v
      | some o =>
        let o ← fitted o t
        if o.valid then
          let _ ← mstore (← address v) (.value o) off
        pure v

def fieldIndex? (f : FnId) (v : Val) (name : String) : BuildM (Option Nat) :=
  guarded f none do
    let i ← findField v.type name
    pure (some i)

def fieldNamed (v : Val) (name : String) : BuildM Val :=
  onValue v "field" {} fun f => do
    match ← fieldIndex? f v name with
    | none => pure {}
    | some i => field v i

def setFieldNamed (v : Val) (name : String) (x : HostValue) : BuildM Val :=
  onValue v "set_field" v fun f => do
    match ← fieldIndex? f v name with
    | none => pure v
    | some i => setField v i x

def alloca (f : FnId) (size : HostValue) : BuildM Val := do
  match ← operand? f "alloca" size (Builtin.nuint.ty (← runtimeOf f)) with
  | none => pure {}
  | some n => emit f "alloca" fun id => EngineM.alloca id n.id

def storeBytes (f : FnId) (buffer : Val) (byte : Ty) : Nat → Bytes → BuildM Unit
  | _, [] => pure ()
  | i, b :: rest => do
    let c ← constUint f byte b.toNat
    let _ ← mstore buffer (.value c) i
    storeBytes f buffer byte (i + 1) rest

def stringz (f : FnId) (s : Bytes) : BuildM Val := do
  let rt ← runtimeOf f
  let buffer ← alloca f (.int .int (s.length + 1))
  if !buffer.valid then return {}
  storeBytes f buffer (Builtin.uint8.ty rt) 0 (s ++ [0])
  cast buffer (Builtin.stringz.ty rt)

def ret (f : FnId) (x : HostValue) : BuildM Unit := do
  match ← operand? f "return" x (← function f).ret with
  | none => pure ()
  | some v => guarded f () (onFunc f "return" fun id => EngineM.ret id v.id)

def retVoid (f : FnId) : BuildM Unit :=
  guarded f () (onFunc f "return" fun id => EngineM.ret id 0)

def callOther (f : FnId) (callee : Option FnId) (args : List HostValue) : BuildM Val := do
  let rt ← runtimeOf f
  match callee with
  | none => reject f "call" .foreignCallee
  | some g =>
    let s ← function g
    if s.runtime ≠ rt then reject f "call" .foreignCallee
    else if args.length ≠ s.params.length then
      reject f "call" (.argumentCount (← functionName g) s.params.length args.length)
    else
      match ← operands? f "call" (args.zip s.params) with
      | none => pure {}
      | some vs => emit f "call" fun id => EngineM.call id s.id vs

def nativeArg? (f : FnId) (x : HostValue) (t : Ty) : BuildM (Option Val) := do
  match x, t.kind with
  | .str s, .pointer =>
    let v ← stringz f s
    pure (if v.valid then some v else none)
  | x, _ => operand? f "call_native" x t

/-- A further argument of a native: floats are 64 bits wide, whole numbers
32. -/
def extraArg? (f : FnId) (x : HostValue) : BuildM (Option Val) := do
  let rt ← runtimeOf f
  match x with
  | .value v => operand? f "call_native" x v.type
  | .str s =>
    let v ← stringz f s
    pure (if v.valid then some v else none)
  | .float32 _ | .float64 _ => operand? f "call_native" x (Builtin.float64.ty rt)
  | x => operand? f "call_native" x (Builtin.int32.ty rt)

def nativeArgs? (f : FnId) : List HostValue → List Ty → BuildM (Option (List Val))
  | [], _ => pure (some [])
  | x :: rest, params => do
    let v ← match params with
      | t :: _ => nativeArg? f x t
      | [] => extraArg? f x
    match v with
    | none => pure none
    | some v =>
      match ← nativeArgs? f rest params.tail with
      | none => pure none
      | some vs => pure (some (v :: vs))

def valueType (f : FnId) (v : Val) : BuildM TypeId :=
  guarded f 0 do
    return (← onFunc f "call_native" fun id => EngineM.valueInfo id v.id).type

/-- A call of a native. A variadic native is called through a signature made
for the call. -/
def callNative (f : FnId) (name : String) (args : List HostValue) : BuildM Val := do
  let op := "call_native"
  let rt ← runtimeOf f
  match (← runtime rt).natives.find? name with
  | none => reject f op (.unknownNative name)
  | some n =>
    let fixed := n.params.length
    if args.length < fixed ∨ (!n.variadic ∧ args.length ≠ fixed) then
      reject f op (.argumentCount name fixed args.length)
    else
      match ← nativeArgs? f args n.params with
      | none => pure {}
      | some vs =>
        let ids := vs.map (·.id)
        if n.variadic then
          let extra ← (vs.drop fixed).mapM (valueType f)
          let e ← engine rt
          match e.types.extendSignature? n.sig.id extra with
          | none => reject f op (.noSignature name)
          | some (sig, types) =>
            modifyRuntime rt fun r => { r with engine := { r.engine with types } }
            emit f op fun id => EngineM.callNative id name sig ids
        else emit f op fun id => EngineM.callNative id name n.sig.id ids

/-- A call of a native of the library with the arguments it takes: the clock is
read without a place to store it, formatted printing takes all arguments, and
the others take the first. -/
def callLibrary (f : FnId) (name : String) (args : List HostValue) : BuildM Val :=
  match name with
  | "rand" => callNative f name []
  | "time" => do callNative f name [.value (← null f)]
  | "printf" => callNative f name args
  | _ => callNative f name [args.headD .nothing]

end BuildM

end TypedIR
