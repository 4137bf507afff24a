import TypedIR.Build.Runtime

/-
  Functions under construction: their parameters, their first problem, and how
  they are finished and called.

  A call takes host values and gives one back. A string for a pointer is put
  into memory for the time of the call.
-/

namespace TypedIR

open Text

namespace BuildM

def functionName (f : FnId) : BuildM String := do
  let s ← function f
  match (← engine s.runtime).findFunc s.id with
  | .ok ef => pure ef.name
  | .error _ => pure ""

def keep (f : FnId) (p : Problem) : BuildM Unit := do
  let s ← function f
  if s.problem.isNone then
    modifyFunction f ({ · with problem := some p })
    trace s.runtime (.point .function "builder_error" p.message)

/-- Runs an operation on a function; its problem is kept with the function and
goes on. -/
def keeping {α : Type} (f : FnId) (act : BuildM α) : BuildM α := do
  match ← attempt act with
  | .ok a => pure a
  | .error p =>
    keep f p
    throw (.problem p)

/-- Runs an operation on a function; if it has a problem, that is kept with
the function and `fallback` is the answer. -/
def guarded {α : Type} (f : FnId) (fallback : α) (act : BuildM α) : BuildM α := do
  match ← attempt act with
  | .ok a => pure a
  | .error p =>
    keep f p
    pure fallback

def wrapValue (f : FnId) (id : ValueId) : BuildM Val := do
  let s ← function f
  let info ← onEngine s.runtime "wrap" (EngineM.valueInfo s.id id)
  let type ← wrapType s.runtime info.type
  pure { fn := some f, id, kind := .ofTy type, type }

def arg (f : FnId) (i : Int) : BuildM Val := do
  let s ← function f
  if i < 0 ∨ s.params.length ≤ i then complain "arg" (.argIndex i s.params.length)
  let id ← onEngine s.runtime "arg" (EngineM.paramValue s.id i)
  wrapValue f id

def args (f : FnId) : BuildM (List Val) := do
  let s ← function f
  (List.range s.params.length).mapM fun (i : Nat) => guarded f {} (arg f i)

/-- Puts a return at the end of a function that control falls off, and says whether it
does. -/
def reachesEnd (f : FnId) : BuildM Bool := do
  match ← onFunc f "compile" EngineM.defaultReturn with
  | some reachable => return reachable
  | none => throw .crashed

/-- The steps of compiling: the end of a function must not be reached, unless
the function gives nothing back. -/
def finishing (f : FnId) : BuildM Unit := do
  let s ← function f
  let reachable ← reachesEnd f
  if reachable && s.ret.kind != .void then
    complain "compile" (.reachesEnd (← functionName f) (← tyText s.ret))
  onFunc f "compile" EngineM.compile
  modifyFunction f ({ · with compiled := true })

def finish (f : FnId) : BuildM Unit := keeping f (finishing f)

def compile (f : FnId) : BuildM Unit := do
  let s ← function f
  match s.problem with
  | some p => throw (.problem p)
  | none =>
    if s.compiled then return
    let name ← functionName f
    trace s.runtime (.opened .function "compile")
    let outcome ← attempt (finish f)
    match outcome with
    | .ok () => trace s.runtime (.closed "ok" [("func", name)])
    | .error p =>
      trace s.runtime (.closed ("error: " ++ p.message) [("func", name)])
      throw (.problem p)

section

variable {m : Type → Type} [Monad m] [MonadLiftT BuildM m]

/-- Makes a function of a build. With a body, that runs on the function, which
is then compiled. -/
def buildFunction (b : BuildId) (params : List Ty) (ret : Ty) (body : Option (FnId → m Unit)) :
    m FnId := do
  let f ← (startFunction b params ret : BuildM FnId)
  match body with
  | none => pure ()
  | some body =>
    body f
    (compile f : BuildM Unit)
  pure f

end

def listing (f : FnId) : BuildM String :=
  onFunc f "dump" fun id => EngineM.ask (·.listing id true)

def image (f : FnId) : BuildM Image := do
  if !(← function f).compiled then complain "image" (.notCompiled (← functionName f))
  onFunc f "image" fun id => EngineM.ask (·.exportImage id)

def isWhole (x : Float) : Bool :=
  let whole := if x < 0 then x.ceil else x.floor
  x == whole

/-- A host value as a register of a representation, or why it cannot be
one. -/
def marshal (r : Rep) (a : HostValue) : Except Unfit Word :=
  match r.cls with
  | .float =>
    match a.toDouble? with
    | some x => .ok (r.ofDouble x)
    | none => .error (.asFloat a.typeName)
  | .int | .uint | .pointer =>
    match a with
    | .bool b => .ok (Word.ofBool b)
    | .int _ n => .ok (r.normalize (Word.ofInt n))
    | .float32 _ | .float64 _ =>
      let x := a.toDouble?.getD ⟨0⟩
      if isWhole x.toFloat then .ok (r.normalize x.toSigned)
      else .error (.asInteger (Decimal.shortText x.toFloat))
    | a => .error (.asInteger a.typeName)
  | c => .error (.ofClass c)

def unmarshal (r : Rep) (isBool : Bool) (bits : Word) : HostValue :=
  if r.cls = .void then .nothing
  else if isBool then .bool (bits != 0)
  else match r.cls with
    | .int => .int .int64 bits.toInt
    | .float => .float64 (r.toDouble bits).bits
    | _ => .int .uint64 bits.toNat

/-- Puts the arguments of a call, numbered from `i`, into registers; also gives
the blocks made for strings. What was made before a problem is given with
it. -/
def marshalArgs (f : FnId) (s : Function) (name : String) :
    Nat → List (Ty × Rep) → List HostValue → List Word → List Word →
      BuildM (Except Problem (List Word) × List Word)
  | i, (t, r) :: params, a :: args, bits, temps => do
    match a, t.kind with
    | .str text, .pointer =>
      match ← attempt (onMachine s.runtime "call" (EngineM.request (Memory.writeString text))) with
      | .ok addr => marshalArgs f s name (i + 1) params args (bits ++ [addr]) (temps ++ [addr])
      | .error p => pure (.error p, temps)
    | a, _ =>
      match marshal r a with
      | .ok w => marshalArgs f s name (i + 1) params args (bits ++ [w]) temps
      | .error why => pure (.error (.complaint "call" (.badArgument i name why)), temps)
  | _, _, _, bits, temps => pure (.ok bits, temps)

def freeAll (rt : RuntimeId) : List Word → BuildM Unit
  | [] => pure ()
  | a :: rest => do
    let _ ← attempt (onMachine rt "call" (EngineM.request (Memory.free a)))
    freeAll rt rest

def call (f : FnId) (args : List HostValue) : BuildM HostValue := do
  let s ← function f
  let name ← functionName f
  if !s.compiled then complain "call" (.notCompiled name)
  if args.length ≠ s.params.length then
    complain "call" (.argumentCount name s.params.length args.length)
  let (bits, temps) ← marshalArgs f s name 0 (s.params.zip s.paramReps) args [] []
  let outcome ← match bits with
    | .error p => pure (.error p)
    | .ok bits => attempt (onMachine s.runtime "call" (RunM.apply s.id bits))
  freeAll s.runtime temps
  match outcome with
  | .ok res => pure (unmarshal s.retRep (s.ret.kind == .bool) res)
  | .error p => throw (.problem p)

/-- Calls a function once for each list of arguments, numbered from `i`, until
a call has a problem. -/
def callEach (f : FnId) : Nat → List (List HostValue) → BuildM (List HostValue)
  | _, [] => pure []
  | i, args :: rest => do
    match ← attempt (call f args) with
    | .error p => throw (.problem (.within ("call " ++ decimalNat i) p))
    | .ok res => return res :: (← callEach f (i + 1) rest)

/-- Calls a function once for each list of arguments; `parent` is the span the
calls belong to. -/
def callMany (f : FnId) (sets : List (List HostValue)) (parent : Nat) :
    BuildM (List HostValue) := do
  let s ← function f
  let r ← runtime s.runtime
  let (span, tracing) := (← get).tracing.openSpan r.tracer .function "call_many" parent
  modify fun w => { w with tracing }
  let span := (span.withExtra "func" (← functionName f)).withExtra "sets" (decimalNat sets.length)
  let outcome ← attempt (callEach f 0 sets)
  let detail := match outcome with
    | .ok _ => "ok"
    | .error p => "error: " ++ p.message
  modify fun w => { w with tracing := w.tracing.closeSpan span detail }
  match outcome with
  | .ok res => pure res
  | .error p => throw (.problem p)

end BuildM

end TypedIR
