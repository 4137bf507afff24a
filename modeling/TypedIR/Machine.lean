import TypedIR.Engine.Compile
import TypedIR.Arith

/-
  The machine that runs compiled functions, one instruction at a time.

  The machine is a stack of frames, the running one on top. A frame has one
  register for each value; a value with a slot lives in the memory of the
  frame instead. When a frame goes, by a return or by a failure, the blocks it
  reserved are freed, those of the innermost frame first.

  A run stops with a result, with a failure, or with a crash: a crash is a
  request no machine could carry out, such as the name of a value that is not
  there. Emitted code makes none.
-/

namespace TypedIR

/-- One activation of a function: how deeply it is nested, the next
instruction, the registers, the frame's memory, the blocks reserved so far, and
the value of the caller that takes the result. -/
structure Frame where
  func : Func
  depth : Nat
  pc : Nat := 0
  regs : Array Word
  base : Word := 0
  allocas : List Word := []
  dest : ValueId := 0
  deriving Inhabited

/-- The machine: the host, the number of instructions executed, the running
frame and the frames that wait for it, innermost first. -/
structure Machine where
  host : Host
  steps : Nat := 0
  frames : List Frame := []
  deriving Inhabited

abbrev StepM := ExceptT (Halt Failure) (StateM Machine)

namespace StepM

def fail {α : Type} (c : Cause) : StepM α :=
  throw (.failed { cause := c })

def crash {α : Type} : StepM α :=
  throw .crashed

def inFunction {α : Type} (name : String) (act : StepM α) : StepM α :=
  try act catch
    | .failed err => throw (.failed (err.within name))
    | .crashed => throw .crashed

def request {α : Type} (r : Memory.Request α) : StepM α := do
  let m ← get
  set { m with host := { m.host with memory := {} } }
  let (answer, memory) := (r.run m.host.memory : Except (Halt Fault) α × Memory)
  modify fun m => { m with host := { m.host with memory } }
  match answer with
  | .ok a => pure a
  | .error (.failed f) => fail (.memory f)
  | .error .crashed => crash

def frame : StepM Frame := do
  match (← get).frames with
  | fr :: _ => pure fr
  | [] => crash

def modifyFrame (g : Frame → Frame) : StepM Unit :=
  modify fun m =>
    match m with
    | { host, steps, frames := fr :: rest } => { host, steps, frames := g fr :: rest }
    | m => m

def load (r : Rep) (addr : Word) : StepM Word := do
  if r.cls = .struct then return addr
  let data ← request (Memory.read addr r.size)
  if r.fitsRegister then pure (r.decode data) else crash

def store (r : Rep) (addr bits : Word) : StepM Unit := do
  if r.cls = .struct then request (Memory.copy addr bits r.size)
  else if r.fitsRegister then request (Memory.write addr (r.encode bits))
  else crash

def slotAddress (fr : Frame) (slot : Int) : Word :=
  fr.base + Word.ofInt slot

def read (v : ValueId) : StepM Word := do
  let fr ← frame
  match fr.func.values[v]? with
  | none => crash
  | some info =>
    match info.place? with
    | some slot => load info.rep (slotAddress fr slot)
    | none =>
      match fr.regs[v]? with
      | some w => pure w
      | none => crash

def write (v : ValueId) (bits : Word) : StepM Unit := do
  let fr ← frame
  match fr.func.values[v]? with
  | none => crash
  | some info =>
    match info.place? with
    | some slot => store info.rep (slotAddress fr slot) bits
    | none => modifyFrame fun fr => { fr with regs := fr.regs.setIfInBounds v bits }

def readAll : List ValueId → StepM (List Word)
  | [] => pure []
  | v :: rest => do
    let w ← read v
    return w :: (← readAll rest)

def initialRegs (f : Func) : Array Word :=
  f.values.map fun v => if v.origin = .const then v.bits else 0

def setParams (f : Func) : List ValueId → List Word → StepM Unit
  | [], _ => pure ()
  | _ :: _, [] => crash
  | p :: params, a :: args => do
    match f.values[p]? with
    | none => crash
    | some info => write p (info.rep.normalize a)
    setParams f params args

/-- Starts a call of `f`; `depth` is how many calls are under way and `caller`
the name of the calling function. -/
def enter (e : Engine) (f : Func) (args : List Word) (depth : Nat) (caller : String)
    (dest : ValueId) : StepM Unit := do
  if !f.compiled then inFunction f.name (fail .notCompiled)
  if e.maxDepth ≤ depth then inFunction f.name (fail (.depthLimit e.maxDepth))
  let base ←
    if 0 < f.frameSize then inFunction f.name (request (Memory.alloc f.frameSize)) else pure 0
  modify fun m =>
    { m with frames :=
        { func := f, depth := depth + 1, regs := initialRegs f, base, dest } :: m.frames }
  inFunction caller (setParams f f.params args)

def release (addr : Word) : StepM Unit := do
  if addr = 0 then return
  try request (Memory.free addr) catch _ => pure ()

def releaseFrame (fr : Frame) : StepM Unit := do
  fr.allocas.reverse.forM release
  release fr.base

/-- Ends the running frame with a result; gives the result if it was the
outermost frame. -/
def leave (bits : Word) : StepM (Option Word) := do
  let fr ← frame
  releaseFrame fr
  modify fun m => { m with frames := m.frames.drop 1 }
  match (← get).frames with
  | [] => pure (some bits)
  | caller :: _ =>
    if fr.func.ret.cls ≠ .void then inFunction caller.func.name (write fr.dest bits)
    pure none

def jump (f : Func) (i : Insn) : StepM Unit :=
  match f.target? i with
  | some pc => modifyFrame fun fr => { fr with pc }
  | none => crash

def callNative (e : Engine) (f : Func) (i : Insn) : StepM Unit := do
  match e.natives.find? i.native with
  | none => fail (.unknownNative i.native)
  | some run =>
    let bits ← readAll i.args
    let args := (i.args.zip bits).map fun (v, bits) =>
      { rep := ((f.values[v]?).map (·.rep)).getD {}, bits : NativeArg }
    let m ← get
    set { m with host := { m.host with memory := {}, output := #[] } }
    let (answer, host) := ((run { name := i.native, args, ret := i.rep }).run m.host
      : Except (Halt NativeError) Word × Host)
    modify fun m => { m with host }
    match answer with
    | .ok res => if i.rep.cls = .void then pure () else write i.dest (i.rep.normalize res)
    | .error (.failed (.cause c)) => fail c
    | .error (.failed (.text s)) => fail (.native i.native s)
    | .error .crashed => crash

def allocaSize (n : Word) : StepM Int :=
  if n.toNat ≤ 0x80000000 then pure n.toNat else fail (.allocaSize n)

/-- Carries out an instruction that is no jump and no return; `depth` is how
deeply the running function `f` is nested. -/
def execute (e : Engine) (f : Func) (depth : Nat) (i : Insn) : StepM Unit := do
  match i.op with
  | .add | .sub | .mul | .div | .rem | .pow | .and | .or | .xor | .shl | .shr =>
    let a ← read i.a
    let b ← read i.b
    match evalBinary i.op i.rep a b with
    | .ok z => write i.dest z
    | .error c => fail c
  | .lt | .le | .gt | .ge | .eq | .ne =>
    let a ← read i.a
    let b ← read i.b
    write i.dest (evalCompare i.op i.rep a b)
  | .neg | .not =>
    let a ← read i.a
    write i.dest (evalUnary i.op i.rep a)
  | .toBool | .toNotBool =>
    let a ← read i.a
    write i.dest (Word.ofBool (truthy i.rep a == (i.op == .toBool)))
  | .convert =>
    let a ← read i.a
    match f.values[i.dest]? with
    | some d => write i.dest (convertWord i.rep d.rep a)
    | none => crash
  | .copy =>
    let a ← read i.a
    write i.dest a
  | .addressOf =>
    match f.values[i.a]? with
    | some v => write i.dest (slotAddress (← frame) (v.slot.getD (-1)))
    | none => crash
  | .loadRel =>
    let p ← read i.a
    let v ← load i.rep (p + Word.ofInt i.offset)
    write i.dest v
  | .storeRel =>
    let p ← read i.a
    let v ← read i.b
    store i.rep (p + Word.ofInt i.offset) v
  | .loadElem =>
    let p ← read i.a
    let index ← read i.b
    let v ← load i.rep (p + index * Word.ofInt i.rep.size)
    write i.dest v
  | .storeElem =>
    let p ← read i.a
    let index ← read i.b
    match i.args with
    | [] => crash
    | arg :: _ =>
      let v ← read arg
      store i.rep (p + index * Word.ofInt i.rep.size) v
  | .alloca =>
    let n ← read i.a
    let size ← allocaSize n
    let p ← request (Memory.alloc size)
    modifyFrame fun fr => { fr with allocas := p :: fr.allocas }
    write i.dest p
  | .call =>
    match e.findFunc i.callee with
    | .error err => throw (.failed err)
    | .ok callee =>
      let args ← readAll i.args
      enter e callee args depth f.name i.dest
  | .callNative => callNative e f i
  | .math =>
    let args ← readAll i.args
    match evalMath? i.math i.rep args with
    | some z => write i.dest z
    | none => crash
  | op => fail (.unimplemented op)

def dispatch (e : Engine) (f : Func) (depth : Nat) (i : Insn) : StepM (Option Word) := do
  match i.op with
  | .nop | .label => pure none
  | .branch =>
    jump f i
    pure none
  | .branchIf | .branchIfNot =>
    let c ← read i.a
    if truthy i.rep c == (i.op == .branchIf) then jump f i
    pure none
  | .ret =>
    if i.a = 0 then leave 0
    else
      let v ← read i.a
      leave v
  | _ =>
    execute e f depth i
    pure none

/-- One step: the next instruction of the running frame, or its end if there
is none. Gives the result when the outermost frame ends. -/
def step (e : Engine) : StepM (Option Word) := do
  let { func := f, depth, pc, .. } ← frame
  match f.insns[pc]? with
  | none => leave 0
  | some i =>
    modify fun m => { m with steps := m.steps + 1 }
    inFunction f.name do
      if 0 < e.maxSteps ∧ e.maxSteps < (← get).steps then fail (.stepLimit e.maxSteps)
      modifyFrame fun fr => { fr with pc := pc + 1 }
      dispatch e f depth i

def unwind : StepM Unit := do
  (← get).frames.forM releaseFrame
  modify fun m => { m with frames := [] }

end StepM

/-- How a run ends; `unfinished` if it was given up. -/
inductive RunEnd where
  | result (bits : Word)
  | halted (h : Halt Failure)
  | unfinished
  deriving DecidableEq, Inhabited

namespace Machine

def unwound (m : Machine) : Machine :=
  ((StepM.unwind.run m : Except (Halt Failure) Unit × Machine)).2

def run (e : Engine) : Nat → Machine → RunEnd × Machine
  | 0, m => (.unfinished, m)
  | fuel + 1, m =>
    match ((StepM.step e).run m : Except (Halt Failure) (Option Word) × Machine) with
    | (.ok none, m) => run e fuel m
    | (.ok (some bits), m) => (.result bits, m)
    | (.error h, m) => (.halted h, m.unwound)

def call (e : Engine) (fuel : Nat) (host : Host) (f : Func) (args : List Word) :
    RunEnd × Machine :=
  match ((StepM.enter e f args 0 "" 0).run { host } : Except (Halt Failure) Unit × Machine) with
  | (.ok (), m) => run e fuel m
  | (.error h, m) => (.halted h, m.unwound)

end Machine

/-- How many steps a run is given: more than any run that ends in a lifetime
takes. -/
def runFuel : Nat := 0x4000000000000000

abbrev RunM := ExceptT (Halt Failure) (StateM Engine)

namespace RunM

def ofEngine {α : Type} (act : EngineM α) : RunM α := do
  let e ← get
  let (answer, e) := (act.run e : Except Failure α × Engine)
  set e
  match answer with
  | .ok a => pure a
  | .error err => throw (.failed err)

/-- Calls a compiled function with registers as arguments. A run that is given
up counts as a crash. -/
def apply (fn : FuncId) (args : List Word) : RunM Word := do
  let f ← ofEngine (EngineM.func fn)
  if !f.compiled then throw (.failed { cause := .notCompiled, function := f.name })
  if args.length ≠ f.params.length then
    throw (.failed { cause := .argCount f.params.length args.length, function := f.name })
  ofEngine (EngineM.note (.opened .function "apply"))
  let e ← get
  set { e with host := default }
  let host := e.host
  let (ending, m) := Machine.call { e with host := default } runFuel host f args
  modify fun e => { e with host := m.host }
  ofEngine (EngineM.note (.closed ""
    [("func", f.name), ("steps", Text.decimalNat m.steps)]))
  match ending with
  | .result bits => pure bits
  | .halted h => throw h
  | .unfinished => throw .crashed

end RunM

end TypedIR
