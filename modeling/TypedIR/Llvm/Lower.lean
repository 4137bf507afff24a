import TypedIR.Llvm.Text
import TypedIR.Engine.Types
import TypedIR.Build.Problem

/-
  Export of compiled functions as LLVM code.

  Every value of the function that is no constant gets a slot in the entry
  block. Every instruction loads its operands from their slots and stores its
  result; labels become blocks, and running into a label becomes a jump.
  Addresses are byte pointers and structs are rows of bytes. Other functions,
  natives and intrinsics are declared.
-/

namespace TypedIR.Llvm

open Text

/-- How a function is exported: under which name, if not its own, and which
natives take any number of arguments. -/
structure Options where
  name : String := ""
  variadic : String → Bool := fun _ => false

/-- A function on its way into a module: the module, the position of the
function, what names stand for, the body so far, the block that grows, and how
many results are numbered. -/
structure Lowering where
  module : Module
  self : Nat := 0
  names : List (String × Nat) := []
  body : Body := {}
  current : Nat := 0
  temps : Nat := 0
  deriving Inhabited

abbrev LowerM := ExceptT (Halt Problem) (StateM Lowering)

namespace LowerM

def fail {α : Type} (s : String) : LowerM α :=
  throw (.failed (.text s))

def crash {α : Type} : LowerM α :=
  throw .crashed

def ofEngine {α : Type} : Except Failure α → LowerM α
  | .ok a => pure a
  | .error f => throw (.failed (.failure f))

/-! ## Types -/

def intType (size : Int) : LowerM LType :=
  if size = 1 ∨ size = 2 ∨ size = 4 ∨ size = 8 then pure (.int (8 * size.toNat))
  else fail ("no integer type of " ++ decimal size ++ " bytes")

def typeOf (r : Rep) : LowerM LType :=
  match r.cls with
  | .void => pure .void
  | .int | .uint => intType r.size
  | .float => pure (if r.size = 4 then .float else .double)
  | .pointer => pure .address
  | .struct => pure (.bytes (Word.ofInt r.size).toNat)
  | .other n => fail ("no LLVM type for " ++ (Class.other n).name)

def repOf (e : Engine) (id : TypeId) : LowerM Rep :=
  match ((e.types.findRep e.target id).run e.layouts : Except Cause Rep × Layout.Cache).1 with
  | .ok r => pure r
  | .error c => throw (.failed (.failure { cause := c }))

def resultOf (e : Engine) (sig : TypeId) : TypeId :=
  ((e.signature? sig).map (·.result)).getD 0

def paramsOf (e : Engine) (sig : TypeId) : List TypeId :=
  ((e.signature? sig).map (·.params)).getD []

def repOfValue (f : Func) (v : ValueId) : LowerM Rep :=
  match f.values[v]? with
  | some i => pure i.rep
  | none => crash

/-! ## Emitting -/

def modifyBlock (g : Block → Block) : LowerM Unit :=
  modify fun s => { s with body := { s.body with blocks := s.body.blocks.modify s.current g } }

def push (i : Instr) : LowerM Unit :=
  modifyBlock fun b => { b with instrs := b.instrs.push i }

def result (t : LType) (make : Nat → Instr) : LowerM Operand := do
  let n := (← get).temps
  modify ({ · with temps := n + 1 })
  push (make n)
  pure (.named (.temp n) t)

def terminate (t : Terminator) : LowerM Unit :=
  modifyBlock ({ · with terminator := some t })

def startBlock (name : BlockName) : LowerM Unit := do
  let s ← get
  if ((s.body.blocks[s.current]?).bind (·.terminator)).isNone then terminate (.jump name)
  match s.body.blocks.findIdx? (·.name == name) with
  | some i =>
    modify fun s => { s with current := i, body := { s.body with order := s.body.order.push i } }
  | none =>
    let i := s.body.blocks.size
    modify fun s => { s with
      current := i
      body := { blocks := s.body.blocks.push { name }, order := s.body.order.push i } }

def convert (op : CastOp) (x : Operand) (t : LType) : LowerM Operand :=
  result t (.cast · op x t)

def binary (op : BinaryOp) (a b : Operand) : LowerM Operand :=
  result a.type (.binary · op a b)

def compare (p : Predicate) (a b : Operand) : LowerM Operand :=
  match a.type with
  | .int _ | .pointer _ => if p.onFloats then crash else result (.int 1) (.compare · p a b)
  | .float | .double => if p.onFloats then result (.int 1) (.compare · p a b) else crash
  | _ => crash

def store (x target : Operand) : LowerM Unit :=
  if target.type = .pointer x.type then push (.store x target) else crash

def element (t : LType) (base index : Operand) : LowerM Operand :=
  match base.type with
  | .pointer _ => result (.pointer t) (.element · t base index)
  | _ => crash

/-! ## Values -/

def hasSlot (v : ValueInfo) : Bool :=
  v.origin != .const && v.rep.cls != .void

def constant (v : ValueInfo) : LowerM Operand := do
  let t ← typeOf v.rep
  match v.rep.cls, t with
  | .int, .int bits =>
    let sign := bits < 64 && (v.bits >>> UInt64.ofNat (bits - 1)) &&& 1 == 1
    let w := if sign then v.bits ||| (Word.allOnes <<< UInt64.ofNat bits) else v.bits
    pure (.int bits w.toInt)
  | .uint, .int bits => pure (.int bits v.bits.toInt)
  | .float, t => pure (.float t (v.rep.toDouble v.bits).bits)
  | .pointer, _ => pure (if v.bits = 0 then .null else .address v.bits.toInt)
  | c, _ => fail ("constant of class " ++ c.name)

def slotOf (f : Func) (v : ValueId) : LowerM (LType × Operand) := do
  match if v = 0 then none else f.values[v]? with
  | some i =>
    if hasSlot i then
      let t ← typeOf i.rep
      return (t, .named (.slot v) (.pointer t))
    fail ("value v" ++ decimalNat v ++ " has no storage")
  | none => fail ("value v" ++ decimalNat v ++ " has no storage")

def operand (f : Func) (v : ValueId) : LowerM Operand := do
  match if v = 0 then none else f.values[v]? with
  | none => fail ("unknown value v" ++ decimalNat v)
  | some i =>
    if i.origin = .const then constant i
    else
      let (t, slot) ← slotOf f v
      result t (.load · t slot)

def set (f : Func) (v : ValueId) (x : Operand) : LowerM Unit := do
  store x (← slotOf f v).2

/-- Converts between representations: narrowing cuts off, and widening goes by
the class of the source. -/
def cast (ptrInt : LType) (x : Operand) (source target : Rep) : LowerM Operand := do
  if source = target then return x
  let st ← typeOf source
  let tt ← typeOf target
  if st = tt then return x
  if source.cls = .struct ∨ target.cls = .struct ∨ source.cls = .void ∨ target.cls = .void then
    fail ("cannot convert " ++ source.cls.name ++ " to " ++ target.cls.name)
  else if source.cls = .float ∧ target.cls = .float then
    convert (if source.size < target.size then .fpext else .fptrunc) x tt
  else if source.cls = .float then
    if target.cls = .pointer then convert .inttoptr (← convert .fptoui x ptrInt) tt
    else convert (if target.cls = .int then .fptosi else .fptoui) x tt
  else if target.cls = .float then
    if source.cls = .pointer then convert .uitofp (← convert .ptrtoint x ptrInt) tt
    else convert (if source.cls = .int then .sitofp else .uitofp) x tt
  else if source.cls = .pointer then convert .ptrtoint x tt
  else if target.cls = .pointer then convert .inttoptr x tt
  else if source.size > target.size then convert .trunc x tt
  else convert (if source.cls = .int then .sext else .zext) x tt

def operandAs (ptrInt : LType) (f : Func) (v : ValueId) (r : Rep) : LowerM Operand := do
  let x ← operand f v
  cast ptrInt x (← repOfValue f v) r

def truth (x : Operand) (r : Rep) (want : Bool) : LowerM Operand := do
  let t ← typeOf r
  match r.cls, t with
  | .float, t => compare (if want then .une else .oeq) x (.float t 0)
  | .pointer, _ => compare (if want then .ne else .eq) x .null
  | .int, .int bits | .uint, .int bits => compare (if want then .ne else .eq) x (.int bits 0)
  | c, _ => fail ("no truth value for " ++ c.name)

def setTruth (f : Func) (v : ValueId) (c : Operand) : LowerM Unit := do
  let t ← typeOf (← repOfValue f v)
  set f v (← convert .zext c t)

def addressAt (base : Operand) (offset : Int) (t : LType) : LowerM Operand := do
  let p ← if offset = 0 then pure base else element (.int 8) base (.int 64 offset)
  convert .bitcast p (.pointer t)

def labelBlock (f : Func) (l : LabelId) : LowerM BlockName :=
  if l = 0 ∨ f.labelCount < l then fail ("unknown label L" ++ decimalNat l)
  else pure (.label l)

/-! ## Callees -/

def declare (name : String) (ret : LType) (variadic : Bool) (params : List LType) : LowerM Nat := do
  let s ← get
  match s.names.lookup name with
  | some i => pure i
  | none =>
    let i := s.module.functions.size
    modify fun s => { s with
      module := { s.module with
        functions := s.module.functions.push { name, ret, params, variadic } }
      names := (name, i) :: s.names }
    pure i

def declareSig (e : Engine) (name : String) (sig : TypeId) (variadic : Bool) : LowerM Nat := do
  match (← get).names.lookup name with
  | some i => pure i
  | none =>
    let ret ← typeOf (← repOf e (resultOf e sig))
    if variadic then declare name ret true []
    else
      let params ← (paramsOf e sig).mapM fun p => do typeOf (← repOf e p)
      declare name ret (((e.signature? sig).map (·.variadic)).getD false) params

def call (callee : Nat) (args : List Operand) : LowerM Operand := do
  match (← get).module.functions[callee]? with
  | none => crash
  | some g =>
    if g.ret = .void then
      push (.call none callee args)
      pure (.named (.temp 0) .void)
    else result g.ret fun n => .call (some n) callee args

def arguments (ptrInt : LType) (e : Engine) (f : Func) : List TypeId → List ValueId →
    LowerM (List Operand)
  | _, [] => pure []
  | params, v :: rest => do
    let own ← repOfValue f v
    let want ← match params with
      | p :: _ => repOf e p
      | [] => pure own
    let x ← operandAs ptrInt f v want
    return x :: (← arguments ptrInt e f params.tail rest)

def keepResult (f : Func) (v : ValueId) (r : Rep) (x : Operand) : LowerM Unit := do
  if r.cls = .void ∨ v = 0 then return
  match f.values[v]? with
  | none => crash
  | some i => if hasSlot i then set f v x

/-- The C function of an operation: the one for short floats has a letter
more. -/
def mathName (name : String) (r : Rep) : String :=
  if r.size = 4 then name ++ "f" else name

/-! ## Instructions -/

def integerOp (op : Opcode) (r : Rep) (a b : Operand) : LowerM Operand := do
  let signed := r.cls == .int
  match op with
  | .add => binary .add a b
  | .sub => binary .sub a b
  | .mul => binary .mul a b
  | .div => binary (if signed then .sdiv else .udiv) a b
  | .rem => binary (if signed then .srem else .urem) a b
  | .and => binary .and a b
  | .or => binary .or a b
  | .xor => binary .xor a b
  | .pow =>
    let t ← typeOf r
    let callee ← declare ((if signed then "jitkit.ipow." else "jitkit.upow.") ++ t.text) t false
      [t, t]
    call callee [a, b]
  | .shl | .shr =>
    -- the count is taken modulo the width
    match ← typeOf r with
    | .int bits =>
      let n ← binary .and b (.int bits (bits - 1))
      binary (if op = .shl then .shl else if signed then .ashr else .lshr) a n
    | _ => crash
  | _ => fail (op.name ++ " on integers")

def floatOp (op : Opcode) (r : Rep) (a b : Operand) : LowerM Operand := do
  match op with
  | .add => binary .fadd a b
  | .sub => binary .fsub a b
  | .mul => binary .fmul a b
  | .div => binary .fdiv a b
  | .rem => binary .frem a b
  | .pow =>
    let t ← typeOf r
    call (← declare (mathName "pow" r) t false [t, t]) [a, b]
  | _ => fail (op.name ++ " on floats")

def predicateOf (c : Class) : Opcode → Predicate
  | .lt => match c with
    | .float => .olt
    | .int => .slt
    | _ => .ult
  | .le => match c with
    | .float => .ole
    | .int => .sle
    | _ => .ule
  | .gt => match c with
    | .float => .ogt
    | .int => .sgt
    | _ => .ugt
  | .ge => match c with
    | .float => .oge
    | .int => .sge
    | _ => .uge
  | .eq => if c = .float then .oeq else .eq
  | _ => if c = .float then .une else .ne

/-- What an instruction is lowered against: the engine, the function, its
natives that are declared for any number of arguments, and the integer type of
addresses. -/
structure Scene where
  engine : Engine
  func : Func
  openNatives : List String
  ptrInt : LType

def lowerBinary (s : Scene) (i : Insn) : LowerM Unit := do
  let r : Rep :=
    if i.rep.cls = .pointer then { cls := .uint, size := s.engine.target.ptrSize } else i.rep
  let a ← operandAs s.ptrInt s.func i.a r
  let b ← operandAs s.ptrInt s.func i.b r
  let z ← if r.cls = .float then floatOp i.op r a b else integerOp i.op r a b
  set s.func i.dest (← cast s.ptrInt z r i.rep)

def lowerCompare (s : Scene) (i : Insn) : LowerM Unit := do
  let a ← operandAs s.ptrInt s.func i.a i.rep
  let b ← operandAs s.ptrInt s.func i.b i.rep
  setTruth s.func i.dest (← compare (predicateOf i.rep.cls i.op) a b)

def lowerElement (s : Scene) (i : Insn) : LowerM Unit := do
  let base ← operand s.func i.a
  let index ← operandAs s.ptrInt s.func i.b { cls := .int, size := s.engine.target.ptrSize }
  let t ← typeOf i.rep
  let p ← element t (← convert .bitcast base (.pointer t)) index
  if i.op = .loadElem then
    let x ← result t (.load · t p)
    set s.func i.dest (← cast s.ptrInt x i.rep (← repOfValue s.func i.dest))
  else
    match i.args with
    | [v] => store (← operandAs s.ptrInt s.func v i.rep) p
    | _ => fail "store_elem without a value"

def lowerInsn (s : Scene) (pc : Nat) (i : Insn) : LowerM Unit := do
  if i.op.isBinary then return ← lowerBinary s i
  if i.op.isCompare then return ← lowerCompare s i
  let f := s.func
  match i.op with
  | .nop => pure ()
  | .neg | .not =>
    let a ← operandAs s.ptrInt f i.a i.rep
    match i.op, i.rep.cls, ← typeOf i.rep with
    | .neg, .float, t => set f i.dest (← result t (.negate · a))
    | .neg, _, .int bits => set f i.dest (← binary .sub (.int bits 0) a)
    | .not, _, .int bits => set f i.dest (← binary .xor a (.int bits (-1)))
    | _, _, _ => crash
  | .toBool | .toNotBool =>
    let a ← operand f i.a
    setTruth f i.dest (← truth a (← repOfValue f i.a) (i.op == .toBool))
  | .convert | .copy => do
    let x ← operandAs s.ptrInt f i.a (← repOfValue f i.dest)
    set f i.dest x
  | .addressOf =>
    let (_, slot) ← slotOf f i.a
    set f i.dest (← convert .bitcast slot .address)
  | .loadRel =>
    let p ← operand f i.a
    let t ← typeOf i.rep
    let p ← addressAt p i.offset t
    let x ← result t (.load · t p)
    set f i.dest (← cast s.ptrInt x i.rep (← repOfValue f i.dest))
  | .storeRel =>
    let p ← operand f i.a
    let t ← typeOf i.rep
    let x ← operandAs s.ptrInt f i.b i.rep
    store x (← addressAt p i.offset t)
  | .loadElem | .storeElem => lowerElement s i
  | .alloca =>
    let n ← operandAs s.ptrInt f i.a { cls := .uint, size := s.engine.target.ptrSize }
    set f i.dest (← result .address (.alloca · n))
  | .label => do startBlock (← labelBlock f i.label)
  | .branch =>
    terminate (.jump (← labelBlock f i.label))
    startBlock (.before (pc + 1))
  | .branchIf | .branchIfNot =>
    let target ← labelBlock f i.label
    let a ← operand f i.a
    let c ← truth a (← repOfValue f i.a) (i.op == .branchIf)
    terminate (.branch c target (.before (pc + 1)))
    startBlock (.before (pc + 1))
  | .ret =>
    if i.a = 0 then terminate (.ret none)
    else
      let r ← repOf s.engine (resultOf s.engine f.sig)
      let x ← operandAs s.ptrInt f i.a r
      terminate (.ret (some x))
    startBlock (.before (pc + 1))
  | .call =>
    let callee ← if i.callee = f.id then pure (← get).self
      else do
        let g ← ofEngine (s.engine.findFunc i.callee)
        declareSig s.engine g.name g.sig false
    let args ← arguments s.ptrInt s.engine f (paramsOf s.engine i.type) i.args
    keepResult f i.dest i.rep (← call callee args)
  | .callNative =>
    let callee ← declareSig s.engine i.native i.type (s.openNatives.contains i.native)
    let args ← arguments s.ptrInt s.engine f (paramsOf s.engine i.type) i.args
    keepResult f i.dest i.rep (← call callee args)
  | .math =>
    let t ← typeOf i.rep
    let args ← i.args.mapM fun a => operandAs s.ptrInt f a i.rep
    let callee ← declare (mathName i.math.name i.rep) t false (i.args.map fun _ => t)
    set f i.dest (← call callee args)
  | op => fail ("no lowering for " ++ op.name)

def at_ {α : Type} (place : String) (act : LowerM α) : LowerM α := do
  try act
  catch
    | .failed p => throw (.failed (.within place p))
    | .crashed => throw .crashed

def lowerInsns (s : Scene) : Nat → List Insn → LowerM Unit
  | _, [] => pure ()
  | pc, i :: rest => do
    at_ ("insn " ++ decimalNat pc ++ " (" ++ i.op.name ++ ")") (lowerInsn s pc i)
    lowerInsns s (pc + 1) rest

def lowerSlots : ValueId → List ValueInfo → LowerM Unit
  | _, [] => pure ()
  | v, i :: rest => do
    if hasSlot i then push (.slot v (← typeOf i.rep))
    lowerSlots (v + 1) rest

def lowerParams (f : Func) : Nat → List (ValueId × LType) → LowerM Unit
  | _, [] => pure ()
  | i, (v, t) :: rest => do
    match f.values[v]? with
    | some info => if hasSlot info then set f v (.named (.param i) t) else crash
    | none => crash
    lowerParams f (i + 1) rest

/-- The natives that are declared for any number of arguments: those that the
options name, and those that are called with different signatures. -/
def openNatives (variadic : String → Bool) (insns : List Insn) : List String :=
  let calls := (insns.filter (·.op == .callNative)).map fun i => (i.native, i.type)
  (calls.filter fun (n, t) =>
    variadic n || calls.any fun (m, u) => n == m && t != u).map (·.1)

/-- Starts the definition of a function under a name: its slots, and its
parameters in them. Answers what its instructions are lowered against. -/
def openFunction (e : Engine) (f : Func) (o : Options) (name : String) : LowerM Scene := do
  let ptrInt ← intType e.target.ptrSize
  let ret ← typeOf (← repOf e (resultOf e f.sig))
  let params ← f.params.mapM fun p => do typeOf (← repOfValue f p)
  let s ← get
  match (s.names.lookup name).bind (s.module.functions[·]?) with
  | some g => if g.body.isSome then fail ("function @" ++ name ++ " is already defined")
  | none => pure ()
  let self := s.module.functions.size
  modify fun s => { s with
    self
    module := { s.module with
      functions := s.module.functions.push { name, ret, params, body := some {} } }
    names := (name, self) :: s.names
    body := { blocks := #[{ name := .entry }], order := #[0] } }
  lowerSlots 1 (f.values.toList.drop 1)
  lowerParams f 0 (f.params.zip params)
  return { engine := e, func := f, ptrInt, openNatives := openNatives o.variadic f.insns.toList }

def closeFunction : LowerM Unit := do
  let s ← get
  if ((s.body.blocks[s.current]?).bind (·.terminator)).isNone then terminate .unreachable

def lowerFunction (e : Engine) (f : Func) (o : Options) (name : String) : LowerM Unit := do
  let scene ← openFunction e f o name
  lowerInsns scene 0 f.insns.toList
  closeFunction

end LowerM

/-- What the name of a function counts as when functions are looked up: a name
that is a number counts as that number in quotes. -/
def Function.key (f : Function) : String :=
  if f.name = "" then "0"
  else match signedNumber? f.name with
    | some n => String.singleton (Char.ofNat 34) ++ decimal n ++ String.singleton (Char.ofNat 34)
    | none => f.name

/-- The module with the function of an engine added. If that fails, what was
made of the function stays in the module. -/
def Module.addFunction (m : Module) (e : Engine) (fn : FuncId) (o : Options) :
    Except (Halt Problem) Unit × Module :=
  match e.findFunc fn with
  | .error f => (.error (.failed (.failure f)), m)
  | .ok f =>
    if !f.compiled then (.error (.failed (.text ("llvmir: " ++ f.name ++ " is not compiled"))), m)
    else
      let name := if o.name = "" then f.name else o.name
      let names := ((m.functions.toList.zipIdx).map fun (g, i) => (g.key, i)).reverse
      let act := LowerM.at_ ("llvmir: " ++ name) (LowerM.lowerFunction e f o name)
      let (answer, s) := (act.run { module := m, names } : Except (Halt Problem) Unit × Lowering)
      (answer, { s.module with
        functions := s.module.functions.modify s.self fun g =>
          if g.body.isSome && !s.body.blocks.isEmpty then { g with body := some s.body } else g })

def exportText (e : Engine) (fn : FuncId) (o : Options) : Except (Halt Problem) String :=
  match ({ triple := e.target.triple } : Module).addFunction e fn o with
  | (.error h, _) => .error h
  | (.ok (), m) =>
    match m.text? with
    | some s => .ok s
    | none => .error .crashed

end TypedIR.Llvm
