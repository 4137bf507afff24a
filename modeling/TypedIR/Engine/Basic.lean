import TypedIR.Function
import TypedIR.Native.Call
import TypedIR.Trace.Event

/-
  The engine: one type table, one address space, and the functions of any
  number of contexts.

  Contexts take turns building: at most one of them holds the build cursor,
  and only its functions accept instructions. Contexts and functions are
  numbered from 1, so 0 names none. What an operation did before it failed
  stays done.
-/

namespace TypedIR

open Text

/-! ## Tables by name

Tables keyed by name, kept in the order of the names.

A name stands for at most one entry; inserting under a name that is taken
replaces the entry. Listing the names gives them in order, which is what the
native listings show.
-/

/-- Entries by name, in ascending order of the names. -/
structure NameTable (α : Type) where
  entries : List (String × α) := []

namespace NameTable

variable {α : Type}

def insertEntry (name : String) (a : α) : List (String × α) → List (String × α)
  | [] => [(name, a)]
  | (n, b) :: rest =>
    if name == n then (name, a) :: rest
    else if name < n then (name, a) :: (n, b) :: rest
    else (n, b) :: insertEntry name a rest

def insert (t : NameTable α) (name : String) (a : α) : NameTable α :=
  ⟨insertEntry name a t.entries⟩

def erase (t : NameTable α) (name : String) : NameTable α :=
  ⟨t.entries.filter fun e => e.1 != name⟩

def find? (t : NameTable α) (name : String) : Option α :=
  (t.entries.find? fun e => e.1 == name).map (·.2)

def names (t : NameTable α) : List String :=
  t.entries.map (·.1)

end NameTable

/-! ## The engine -/

/-- A context: the functions it owns, and whether it was destroyed. -/
structure ContextState where
  funcs : List FuncId := []
  destroyed : Bool := false
  deriving DecidableEq, Repr, Inhabited

/-- The engine. `maxSteps` bounds the instructions of one run, 0 and below
leave it open; `maxDepth` bounds the nesting of calls. -/
structure Engine where
  target : Target
  maxSteps : Int := 0
  maxDepth : Int := 1024
  types : TypeTable := .initial
  layouts : Layout.Cache := []
  host : Host
  contexts : Array ContextState := #[]
  funcs : Array Func := #[]
  building : ContextId := 0
  natives : NameTable NativeFunc := {}
  notes : Array Trace.Note := #[]
  deriving Inhabited

abbrev EngineM := ExceptT Failure (StateM Engine)

namespace Engine

/-- An engine for a target. A target without a pointer size is the usual one,
and a depth of 0 or below the usual depth. -/
def create (target : Target) (maxSteps maxDepth : Int) (rng : Generator) (clock : Int) : Engine :=
  let target := if target.ptrSize = 0 then .amd64 else target
  { target, maxSteps
    maxDepth := if maxDepth ≤ 0 then 1024 else maxDepth
    host := { memory := .forPointers target.ptrSize, rng, clock } }

def context? (e : Engine) (id : ContextId) : Option ContextState :=
  if id = 0 then none else e.contexts[id - 1]?

def func? (e : Engine) (id : FuncId) : Option Func :=
  if id = 0 then none else e.funcs[id - 1]?

def findFunc (e : Engine) (id : FuncId) : Except Failure Func :=
  match e.func? id with
  | none => .error { cause := .unknownFunction id }
  | some f =>
    if f.destroyed then .error { cause := .orphanFunction, function := f.name } else .ok f

/-- The function with a number, if it may receive instructions: it is not
compiled and its context holds the build cursor. -/
def findOpen (e : Engine) (id : FuncId) : Except Failure Func := do
  let f ← e.findFunc id
  if f.compiled then throw { cause := .alreadyCompiled, function := f.name }
  if e.building ≠ f.ctx then throw { cause := .idleContext f.ctx, function := f.name }
  pure f

def isCompiled (e : Engine) (id : FuncId) : Bool :=
  match e.findFunc id with
  | .ok f => f.compiled
  | .error _ => false

def typeText (e : Engine) (id : TypeId) : String :=
  e.types.text id

end Engine

namespace EngineM

def fail {α : Type} (c : Cause) : EngineM α :=
  throw { cause := c }

def failIn {α : Type} (f : Func) (c : Cause) : EngineM α :=
  throw { cause := c, function := f.name }

def note (n : Trace.Note) : EngineM Unit :=
  modify fun e => { e with notes := e.notes.push n }

def ask {α : Type} (f : Engine → Except Failure α) : EngineM α := do
  match f (← get) with
  | .ok a => pure a
  | .error e => throw e

def func (id : FuncId) : EngineM Func := ask (·.findFunc id)

def openFunc (id : FuncId) : EngineM Func := ask (·.findOpen id)

def liveContext (id : ContextId) : EngineM ContextState := do
  match (← get).context? id with
  | none => fail (.unknownContext id)
  | some c => if c.destroyed then fail (.destroyedContext id) else pure c

def createContext : EngineM ContextId := do
  modify fun e => { e with contexts := e.contexts.push {} }
  return (← get).contexts.size

def destroyContext (id : ContextId) : EngineM Unit := do
  let c ← liveContext id
  modify fun e =>
    { e with
      building := if e.building = id then 0 else e.building
      funcs := c.funcs.foldl (fun fs fid => fs.modify (fid - 1) ({ · with destroyed := true })) e.funcs
      contexts := e.contexts.modify (id - 1) ({ · with destroyed := true }) }

def buildStart (id : ContextId) : EngineM Unit := do
  let _ ← liveContext id
  let e ← get
  if e.building ≠ 0 then fail (.busyContext e.building)
  modify fun e => { e with building := id }

def buildEnd (id : ContextId) : EngineM Unit := do
  if (← get).building ≠ id then fail (.idleContext id)
  modify fun e => { e with building := 0 }

def layoutOf (id : TypeId) : EngineM Layout.Answer := do
  let e ← get
  let (answer, layouts) := (Layout.layoutOf e.target e.types id).run e.layouts
  set { e with layouts }
  pure answer

end EngineM

def TypeTable.repOf (t : TypeTable) (id : TypeId) (answer : Layout.Answer) : Except Cause Rep :=
  match t.find? (t.underlying id), answer with
  | none, _ => .error (.unknownType id)
  | some _, .error r => .error (.layout r)
  | some d, .ok l =>
    match d.kind with
    | .void => .ok { cls := .void }
    | .int => .ok { cls := .int, size := l.size }
    | .uint => .ok { cls := .uint, size := l.size }
    | .float => .ok { cls := .float, size := l.size }
    | .pointer | .signature => .ok { cls := .pointer, size := l.size }
    | .struct => .ok { cls := .struct, size := l.size }
    | _ => .error (.noRepresentation (t.text id))

def TypeTable.findRep (t : TypeTable) (target : Target) (id : TypeId) :
    StateM Layout.Cache (Except Cause Rep) := do
  match t.find? (t.underlying id) with
  | none => return .error (.unknownType id)
  | some _ => return t.repOf id (← Layout.layoutOf target t (t.underlying id))

namespace EngineM

def repOf (id : TypeId) : EngineM Rep := do
  let e ← get
  let (answer, layouts) := (e.types.findRep e.target id).run e.layouts
  set { e with layouts }
  match answer with
  | .ok r => pure r
  | .error c => fail c

/-- The representations of parameters, numbered from `i`; structs and void
cannot be passed. -/
def paramReps : Nat → List TypeId → EngineM (List Rep)
  | _, [] => pure []
  | i, p :: rest => do
    let r ← repOf p
    if r.cls = .struct ∨ r.cls = .void then fail (.paramType i ((← get).typeText p))
    return r :: (← paramReps (i + 1) rest)

def defaultName (id : FuncId) : String := "f" ++ decimalNat id

/-- Adds an empty function to a context that is building. Its parameters are
its first values. -/
def createFunction (ctx : ContextId) (sig : TypeId) (name : String) : EngineM FuncId := do
  let e ← get
  match e.types.signature? sig with
  | none => fail (.notSignature (e.typeText sig))
  | some s =>
    let ret ← repOf s.result
    if ret.cls = .struct then fail .structReturn
    let reps ← paramReps 0 s.params
    let _ ← liveContext ctx
    if (← get).building ≠ ctx then fail (.idleContext ctx)
    let id := (← get).funcs.size + 1
    let name := if name = "" then defaultName id else name
    let params : List ValueInfo := (s.params.zip reps).mapIdx fun i (p, r) =>
      { type := p, rep := r, origin := .param, param := i }
    let f : Func :=
      { id, ctx, name, sig, ret,
        values := #[ValueInfo.placeholder] ++ params.toArray,
        params := (List.range params.length).map (· + 1) }
    modify fun e =>
      { e with
        funcs := e.funcs.push f
        contexts := e.contexts.modify (ctx - 1) fun c => { c with funcs := c.funcs ++ [id] } }
    note (.point .function "create_function" (name ++ " " ++ e.typeText sig))
    pure id

def registerNative (name : String) (run : NativeFunc) : EngineM Unit :=
  modify fun e => { e with natives := e.natives.insert name run }

def removeNative (name : String) : EngineM Unit :=
  modify fun e => { e with natives := e.natives.erase name }

def request {α : Type} (r : Memory.Request α) : ExceptT (Halt Failure) (StateM Engine) α := do
  let e ← get
  set { e with host := { e.host with memory := {} } }
  let (answer, memory) := (r.run e.host.memory : Except (Halt Fault) α × Memory)
  modify fun e => { e with host := { e.host with memory } }
  match answer with
  | .ok a => pure a
  | .error (.failed f) => throw (.failed { cause := .memory f })
  | .error .crashed => throw .crashed

end EngineM

end TypedIR
