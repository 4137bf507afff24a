import TypedIR.Build.Types

/-
  Runtimes, and the contexts that take turns building in them.

  A context builds from the start of a build to its end; the build lock of its
  runtime is held all that time. A build that has ended never comes back, and a
  context that was destroyed never builds again.
-/

namespace TypedIR

open Text

/-- How a runtime is set up. -/
structure RuntimeOptions where
  target : Target := ⟨"", 0, 0⟩
  maxSteps : Int := 0
  maxDepth : Int := 0
  disabled : List String := []
  seed : UInt64 := 1
  tracer : Trace.TracerId := 0
  clock : Int := 0

namespace BuildM

/-- Describes and binds a native; one of the same name is replaced. A native
without a result type gives nothing. -/
def registerNative (rt : RuntimeId) (name : String) (params : List Ty) (ret : Ty)
    (variadic : Bool) (run : Option NativeFunc) : BuildM Ty := do
  if name = "" then complain "native" .namelessNative
  match run with
  | none => complain "native" (.noImplementation name)
  | some run =>
    let ret := if ret.valid then ret else Builtin.void.ty rt
    let sig ← signatureTy rt params ret (if variadic then .vararg else .cdecl)
    modifyRuntime rt fun r =>
      { r with natives := r.natives.insert name { params, ret, variadic, sig } }
    onEngine rt "native" (EngineM.registerNative name run)
    pure sig

def removeNative (rt : RuntimeId) (name : String) : BuildM Unit := do
  modifyRuntime rt fun r => { r with natives := r.natives.erase name }
  onEngine rt "native" (EngineM.removeNative name)

def registerLibrary (rt : RuntimeId) (n : LibraryNative) : BuildM Unit := do
  let _ ← registerNative rt n.name (n.params.map (·.ty rt)) (n.ret.ty rt) n.variadic (some n.run)

/-- A fresh runtime with the natives of the library, those that are disabled
left out. -/
def newRuntime (o : RuntimeOptions) : BuildM RuntimeId := do
  let rt := (← get).runtimes.size
  let engine := Engine.create o.target o.maxSteps o.maxDepth (.seeded o.seed) o.clock
  modify fun w => { w with runtimes := w.runtimes.push { engine, tracer := o.tracer } }
  Library.all.forM (registerLibrary rt)
  o.disabled.forM (removeNative rt)
  trace rt (.point .runtime "runtime_new" engine.target.triple)
  pure rt

def newContext (rt : RuntimeId) (uid : String) : BuildM CtxId := do
  let id ← onEngine rt "context" EngineM.createContext
  let c := (← get).contexts.size
  modify fun w => { w with contexts := w.contexts.push { runtime := rt, id, uid } }
  trace rt (.point .context "context_create" uid)
  pure c

def releaseLock (rt : RuntimeId) (c : CtxId) : BuildM Unit :=
  modifyRuntime rt fun r => if r.holder = some c then { r with holder := none } else r

def buildStart (c : CtxId) : BuildM BuildId := do
  let op := "build_start"
  let s ← context c
  if s.destroyed then complain op (.contextDestroyed s.text)
  let r ← runtime s.runtime
  match r.holder with
  | some holder =>
    if s.build.isSome then complain op (.alreadyBuilding s.text)
    complain op (.otherBuilding (← context holder).text)
  | none =>
    modifyRuntime s.runtime ({ · with holder := some c })
    match ← tryEngine s.runtime (EngineM.buildStart s.id) with
    | .error f =>
      releaseLock s.runtime c
      throw (.problem (.engine op f))
    | .ok () =>
      let b := (← get).builds.size
      modify fun w => { w with builds := w.builds.push { ctx := c } }
      trace s.runtime (.opened .context "build")
      modifyContext c ({ · with build := some b })
      pure b

def buildActive (b : BuildId) : BuildM Bool := do
  return !(← build b).ended

def markEnded (b : BuildId) (c : CtxId) : BuildM Unit := do
  modify fun w => { w with builds := w.builds.modify b ({ · with ended := true }) }
  modifyContext c ({ · with build := none })

def buildFinish (b : BuildId) : BuildM Unit := do
  let s ← build b
  let c ← context s.ctx
  if s.ended then complain "build_end" (.buildAlreadyEnded c.text)
  markEnded b s.ctx
  let answer ← tryEngine c.runtime (EngineM.buildEnd c.id)
  releaseLock c.runtime s.ctx
  trace c.runtime (.closed "" [("context", c.uid)])
  match answer with
  | .ok () => pure ()
  | .error f => throw (.problem (.engine "build_end" f))

def buildEnd (c : CtxId) : BuildM Unit := do
  let s ← context c
  match s.build with
  | none => complain "build_end" (.notBuilding s.text)
  | some b => buildFinish b

/-- Destroys a context with its functions; a build of it ends. Destroying twice
does nothing. -/
def destroy (c : CtxId) : BuildM Unit := do
  let s ← context c
  if s.destroyed then return
  match s.build with
  | some b =>
    markEnded b c
    trace s.runtime (.closed "destroyed" [("context", s.uid)])
    releaseLock s.runtime c
  | none => pure ()
  modifyContext c ({ · with destroyed := true })
  trace s.runtime (.point .context "context_destroy" s.uid)
  onEngine s.runtime "destroy" (EngineM.destroyContext s.id)

section

variable {m : Type → Type} [Monad m] [MonadLiftT BuildM m] [MonadExceptOf Stop m]

/-- Runs a body inside a build. The build ends in every case. If the body
stops, that is how the whole stops; a build that the body itself ended is a
problem, unless it destroyed the context. -/
def withBuild {α : Type} (c : CtxId) (body : BuildId → m α) : m α := do
  let b ← (buildStart c : BuildM BuildId)
  let outcome : Except Stop α ←
    tryCatchThe Stop (Except.ok <$> body b) fun stop => pure (.error stop)
  let ending ← (attempt (buildFinish b) : BuildM (Except Problem Unit))
  match outcome, ending with
  | .error stop, _ => throwThe Stop stop
  | .ok a, .ok () => pure a
  | .ok a, .error p =>
    if (← (context c : BuildM Context)).destroyed then pure a else throwThe Stop (.problem p)

end

def checkActive (b : BuildId) (op : String) : BuildM Build := do
  let s ← build b
  if s.ended then complain op (.buildEnded (← context s.ctx).text)
  pure s

def adopt (c : CtxId) (id : FuncId) (sig : Ty) (compiled : Bool) : BuildM FnId := do
  let s ← context c
  let rt := s.runtime
  let ret ← returnOf sig
  let params ← paramsOf sig
  let paramReps ← params.mapM fun p => onEngine rt "function" (EngineM.repOf p.id)
  let retRep ← onEngine rt "function" (EngineM.repOf ret.id)
  let fn := (← get).functions.size
  modify fun w =>
    { w with functions :=
        w.functions.push { runtime := rt, id, sig, ret, params, paramReps, retRep, compiled } }
  modifyContext c fun s => { s with functions := s.functions ++ [fn] }
  pure fn

def newFunction (b : BuildId) (name : String) (sig : Ty) : BuildM FnId := do
  let s ← checkActive b "function"
  if sig.kind ≠ .signature then complain "function" (.notSignature (← tyText sig))
  let c ← context s.ctx
  let id ← onEngine c.runtime "function" (EngineM.createFunction c.id sig.id name)
  adopt s.ctx id sig false

def startFunction (b : BuildId) (params : List Ty) (ret : Ty) : BuildM FnId := do
  let c ← context (← build b).ctx
  let sig ← signatureTy c.runtime params ret .cdecl
  newFunction b "" sig

def loadImage (b : BuildId) (img : Option Image) : BuildM FnId := do
  let s ← checkActive b "load_image"
  let c ← context s.ctx
  let id ← onEngine c.runtime "load_image" (EngineM.importImage c.id img)
  let f ← onEngine c.runtime "load_image" (EngineM.func id)
  let sig ← wrapType c.runtime f.sig
  adopt s.ctx id sig true

end BuildM

end TypedIR
