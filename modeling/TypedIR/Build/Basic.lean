import TypedIR.Build.Problem
import TypedIR.Machine
import TypedIR.Engine.Listing
import TypedIR.Image
import TypedIR.Trace.Tracer
import TypedIR.Native.Library

/-
  The builder's workspace: runtimes, their contexts, builds and functions.

  A runtime owns an engine, the lock that lets one context build at a time,
  and the natives code can call. Types, values and labels name the runtime or
  function they belong to; those that belong to none are invalid. Everything
  is numbered in the order in which it is made.
-/

namespace TypedIR

open Text

abbrev RuntimeId := Nat

abbrev CtxId := Nat

abbrev BuildId := Nat

abbrev FnId := Nat

/-- The kinds of types the builder tells apart. -/
inductive TyKind where
  | invalid
  | primitive
  | bool
  | void
  | pointer
  | struct
  | signature
  deriving DecidableEq, Repr, Inhabited

namespace TyKind

def ofCode (n : UInt8) : TyKind :=
  match n.toNat with
  | 1 => .primitive
  | 2 => .bool
  | 3 => .void
  | 4 => .pointer
  | 5 => .struct
  | 6 => .signature
  | _ => .invalid

def name : TyKind → String
  | .invalid => "invalid"
  | .primitive => "primitive"
  | .bool => "bool"
  | .void => "void"
  | .pointer => "pointer"
  | .struct => "struct"
  | .signature => "signature"

end TyKind

/-- A type of a runtime. -/
structure Ty where
  owner : Option RuntimeId := none
  id : TypeId := 0
  kind : TyKind := .invalid
  deriving DecidableEq, Repr, Inhabited

def Ty.valid (t : Ty) : Bool := t.owner.isSome && t.kind != .invalid

/-- The kinds of values the builder tells apart. -/
inductive ValKind where
  | invalid
  | primitive
  | bool
  | pointer
  | struct
  | void
  deriving DecidableEq, Repr, Inhabited

namespace ValKind

def ofCode (n : UInt8) : ValKind :=
  match n.toNat with
  | 1 => .primitive
  | 2 => .bool
  | 3 => .pointer
  | 4 => .struct
  | 5 => .void
  | _ => .invalid

def name : ValKind → String
  | .invalid => "invalid"
  | .primitive => "primitive"
  | .bool => "bool"
  | .pointer => "pointer"
  | .struct => "struct"
  | .void => "void"

def ofTy (t : Ty) : ValKind :=
  match t.kind with
  | .struct => .struct
  | .pointer => .pointer
  | .void => .void
  | .bool => .bool
  | _ => .primitive

end ValKind

/-- A value of a function. -/
structure Val where
  fn : Option FnId := none
  id : ValueId := 0
  kind : ValKind := .invalid
  type : Ty := {}
  deriving DecidableEq, Repr, Inhabited

def Val.valid (v : Val) : Bool := v.fn.isSome && v.id != 0

/-- A label of a function; label 0 is none. -/
structure Label where
  fn : FnId
  id : LabelId
  deriving DecidableEq, Repr, Inhabited

/-- The integer types of the host. -/
inductive HostInt where
  | int
  | int8
  | int16
  | int32
  | int64
  | uint
  | uint8
  | uint16
  | uint32
  | uint64
  | uintptr
  deriving DecidableEq, Repr, Inhabited

def HostInt.signed : HostInt → Bool
  | .int | .int8 | .int16 | .int32 | .int64 => true
  | _ => false

def HostInt.name : HostInt → String
  | .int => "int"
  | .int8 => "int8"
  | .int16 => "int16"
  | .int32 => "int32"
  | .int64 => "int64"
  | .uint => "uint"
  | .uint8 => "uint8"
  | .uint16 => "uint16"
  | .uint32 => "uint32"
  | .uint64 => "uint64"
  | .uintptr => "uintptr"

def HostInt.all : List HostInt :=
  [.int, .int8, .int16, .int32, .int64, .uint, .uint8, .uint16, .uint32, .uint64, .uintptr]

def HostInt.ofName? (s : String) : Option HostInt :=
  all.find? fun t => t.name == s

def HostInt.width : HostInt → Nat
  | .int8 | .uint8 => 8
  | .int16 | .uint16 => 16
  | .int32 | .uint32 => 32
  | _ => 64

def HostInt.wrap (t : HostInt) (n : Int) : Int :=
  if t.signed then Int.bmod n (twoTo t.width) else n % (twoTo t.width : Nat)

/-- What the host hands to the builder: as an operand, as an argument of a
call, or in the description of a type. -/
inductive HostValue where
  | nothing
  | bool (b : Bool)
  | int (type : HostInt) (n : Int)
  | float32 (bits : UInt32)
  | float64 (bits : UInt64)
  | str (s : Bytes)
  /-- An empty list of numbers, which nothing accepts. -/
  | numbers
  | type (t : Ty)
  | value (v : Val)
  | tag (s : String)
  | abi (a : Abi)
  | types (ts : List Ty)
  | items (xs : List HostValue)
  deriving Repr, Inhabited

namespace HostValue

def typeName : HostValue → String
  | .nothing => "<nil>"
  | .bool _ => "bool"
  | .int t _ => t.name
  | .float32 _ => "float32"
  | .float64 _ => "float64"
  | .str _ => "string"
  | .numbers => "[]int"
  | .type _ => "jit.Type"
  | .value _ => "jit.Value"
  | .tag _ => "jit.Tag"
  | .abi _ => "types.ABI"
  | .types _ => "[]jit.Type"
  | .items _ => "[]interface \x7b\x7d"

def toDouble? : HostValue → Option Double
  | .float32 b => some (.ofSingle b)
  | .float64 b => some ⟨b⟩
  | .int .uintptr _ => none
  | .int t n => some (if t.signed then .ofSigned (Word.ofInt n) else .ofUnsigned (Word.ofInt n))
  | _ => none

end HostValue

/-- A native that code can call: its parameters, result and signature. -/
structure NativeEntry where
  params : List Ty
  ret : Ty
  variadic : Bool
  sig : Ty
  deriving Inhabited

/-- A runtime: its engine, the context that holds the build lock, the natives,
and where its trace goes. -/
structure Runtime where
  engine : Engine
  holder : Option CtxId := none
  natives : NameTable NativeEntry := {}
  tracer : Trace.TracerId := 0
  spans : List Trace.Span := []
  deriving Inhabited

/-- A context of the builder. -/
structure Context where
  runtime : RuntimeId
  id : ContextId
  uid : String
  build : Option BuildId := none
  destroyed : Bool := false
  functions : List FnId := []
  deriving Inhabited

/-- A build: the token that lets a context make functions, until it ends. -/
structure Build where
  ctx : CtxId
  ended : Bool := false
  deriving Inhabited

/-- A function of the builder. The first problem stays with the function;
`breaks` are the ends of the loops around the current place, innermost
first. -/
structure Function where
  runtime : RuntimeId
  id : FuncId
  sig : Ty
  ret : Ty
  params : List Ty
  paramReps : List Rep
  retRep : Rep
  problem : Option Problem := none
  breaks : List Label := []
  compiled : Bool := false
  deriving Inhabited

/-- Everything there is; `profiling` names the profiles that are being
taken. -/
structure Workspace where
  tracing : Trace.Tracing := {}
  runtimes : Array Runtime := #[]
  contexts : Array Context := #[]
  builds : Array Build := #[]
  functions : Array Function := #[]
  profiling : List String := []
  deriving Inhabited

/-- How an operation of the builder can stop: with a problem, with a panic
that the caller is meant to see, or with a crash. -/
inductive Stop where
  | problem (p : Problem)
  | panicked
  | crashed
  deriving DecidableEq, Repr, Inhabited

abbrev BuildM := ExceptT Stop (StateM Workspace)

namespace BuildM

def complain {α : Type} (op : String) (c : Complaint) : BuildM α :=
  throw (.problem (.complaint op c))

def attempt {α : Type} (act : BuildM α) : BuildM (Except Problem α) := do
  try
    let a ← act
    pure (.ok a)
  catch
    | .problem p => pure (.error p)
    | stop => throw stop

def runtime (rt : RuntimeId) : BuildM Runtime := do
  match (← get).runtimes[rt]? with
  | some r => pure r
  | none => throw .crashed

def modifyRuntime (rt : RuntimeId) (g : Runtime → Runtime) : BuildM Unit :=
  modify fun w => { w with runtimes := w.runtimes.modify rt g }

def engine (rt : RuntimeId) : BuildM Engine := do
  return (← runtime rt).engine

def Workspace.record (w : Workspace) (r : Runtime) (notes : List Trace.Note) :
    List Trace.Span × Trace.Tracing :=
  notes.foldl (fun (spans, t) n => t.record r.tracer spans n) (r.spans, w.tracing)

def trace (rt : RuntimeId) (n : Trace.Note) : BuildM Unit := do
  let r ← runtime rt
  let w ← get
  let (spans, tracing) := Workspace.record w r [n]
  set { w with tracing, runtimes := w.runtimes.setIfInBounds rt { r with spans } }

def onEngineState {α : Type} (rt : RuntimeId) (act : Engine → α × Engine) : BuildM α := do
  let r ← runtime rt
  modify fun w => { w with runtimes := w.runtimes.setIfInBounds rt default }
  let (answer, e) := act r.engine
  let w ← get
  let (spans, tracing) := Workspace.record w r e.notes.toList
  set { w with
    tracing
    runtimes := w.runtimes.setIfInBounds rt
      { r with engine := { e with notes := #[] }, spans } }
  pure answer

def tryEngine {α : Type} (rt : RuntimeId) (act : EngineM α) : BuildM (Except Failure α) :=
  onEngineState rt fun e => (act.run e : Except Failure α × Engine)

def onEngine {α : Type} (rt : RuntimeId) (op : String) (act : EngineM α) : BuildM α := do
  match ← tryEngine rt act with
  | .ok a => pure a
  | .error f => throw (.problem (.engine op f))

def onMachine {α : Type} (rt : RuntimeId) (op : String) (act : RunM α) : BuildM α := do
  match ← onEngineState rt fun e => (act.run e : Except (Halt Failure) α × Engine) with
  | .ok a => pure a
  | .error (.failed f) => throw (.problem (.engine op f))
  | .error .crashed => throw .crashed

def takeOutput (rt : RuntimeId) : BuildM Bytes := do
  let out := (← engine rt).host.output
  modifyRuntime rt fun r =>
    { r with engine := { r.engine with host := { r.engine.host with output := #[] } } }
  pure out.toList

def context (c : CtxId) : BuildM Context := do
  match (← get).contexts[c]? with
  | some s => pure s
  | none => throw .crashed

def modifyContext (c : CtxId) (g : Context → Context) : BuildM Unit :=
  modify fun w => { w with contexts := w.contexts.modify c g }

def build (b : BuildId) : BuildM Build := do
  match (← get).builds[b]? with
  | some s => pure s
  | none => throw .crashed

def function (f : FnId) : BuildM Function := do
  match (← get).functions[f]? with
  | some s => pure s
  | none => throw .crashed

def modifyFunction (f : FnId) (g : Function → Function) : BuildM Unit :=
  modify fun w => { w with functions := w.functions.modify f g }

/-- Runs an engine operation for a function; its failure is a problem of
`op`. -/
def onFunc {α : Type} (f : FnId) (op : String) (act : FuncId → EngineM α) : BuildM α := do
  let s ← function f
  onEngine s.runtime op (act s.id)

end BuildM

def Context.text (c : Context) : String := "context " ++ c.uid

end TypedIR
