import TypedIR.Engine.Compile

/-
  Images: a compiled function on its own, with the types it uses.

  An image numbers its types from 1 in the order in which they are needed, so
  that every type comes after its parts. Numbers in an image are taken as they
  are read: whether they make sense is found out when it is loaded. A list can
  be absent, which is not the same as empty when an image is written out.
-/

namespace TypedIR

open Text

/-- A type of an image. -/
structure ImageType where
  kind : UInt8 := 0
  width : UInt8 := 0
  elem : Int := 0
  fields : Option (List Int) := none
  names : Option (List String) := none
  abi : UInt8 := 0
  params : Option (List Int) := none
  result : Int := 0
  tag : UInt8 := 0
  data : String := ""
  deriving DecidableEq, Repr, Inhabited

/-- A value of an image. -/
structure ImageValue where
  type : Int := 0
  origin : UInt8 := 0
  param : Int := 0
  bits : Word := 0
  addressable : Bool := false
  deriving DecidableEq, Repr, Inhabited

/-- An instruction of an image. The only function an image can call is the
one it holds. -/
structure ImageInsn where
  op : UInt8 := 0
  dest : Nat := 0
  a : Nat := 0
  b : Nat := 0
  args : Option (List Nat) := none
  label : Nat := 0
  offset : Int := 0
  type : Int := 0
  selfCall : Bool := false
  native : String := ""
  math : UInt8 := 0
  cls : UInt8 := 0
  size : Int := 0
  implicit : Bool := false
  deriving DecidableEq, Repr, Inhabited

/-- An image. Position 0 of the values and of the labels is not used. -/
structure Image where
  version : Int := 0
  target : String := ""
  name : String := ""
  sig : Int := 0
  types : Option (List ImageType) := none
  values : Option (List ImageValue) := none
  params : Option (List Nat) := none
  labels : Option (List Int) := none
  insns : Option (List ImageInsn) := none
  deriving DecidableEq, Repr, Inhabited

def listed? {α : Type} (l : List α) : Option (List α) :=
  if l.isEmpty then none else some l

namespace Image

def summary (img : Image) : String :=
  img.name ++ " (" ++ decimalNat (img.insns.getD []).length ++ " insns, " ++
    decimal ((img.values.getD []).length - 1) ++ " values, " ++ img.target ++ ")"

/-- The types gathered for an image, and the number each has in it. -/
structure Gathered where
  numbers : List (TypeId × Nat) := []
  types : Array ImageType := #[]

abbrev GatherM := ExceptT Failure (StateM Gathered)

def gatherNew (id : TypeId) (it : ImageType) : GatherM Int := do
  let g ← get
  let n := g.types.size + 1
  set { numbers := (id, n) :: g.numbers, types := g.types.push it : Gathered }
  pure n

/-- The number of a type in the image; a type that has none is added after its
parts. `n` bounds how deep types are followed. -/
def gather (t : TypeTable) : Nat → TypeId → GatherM Int
  | 0, id => throw { cause := .unknownType id }
  | n + 1, id => do
    if id = 0 then return 0
    match (← get).numbers.lookup id with
    | some k => return k
    | none =>
      match t.find? id with
      | none => throw { cause := .unknownType id }
      | some d =>
        let it : ImageType := { kind := d.kind.code, width := d.width }
        let it ← match d.kind with
          | .pointer =>
            let elem ← gather t n d.elem
            pure { it with elem }
          | .tagged =>
            let elem ← gather t n d.elem
            let deco := (t.decoration? id).getD {}
            pure { it with elem, tag := deco.tag.code, data := deco.data }
          | .struct =>
            let fs := t.fieldsOf id
            let refs ← fs.mapM fun f => gather t n f.type
            pure { it with fields := listed? refs, names := listed? (fs.map (·.name)) }
          | .signature =>
            let s := (t.signature? id).getD {}
            let params ← s.params.mapM (gather t n)
            let result ← gather t n s.result
            pure { it with abi := s.abi.code, params := listed? params, result }
          | _ => pure it
        gatherNew id it

def ofInsn (i : Insn) (type : Int) : ImageInsn :=
  { op := i.op.code, dest := i.dest, a := i.a, b := i.b, args := listed? i.args,
    label := i.label, offset := i.offset, type, selfCall := i.op == .call, native := i.native,
    math := i.math.code, cls := i.rep.cls.code, size := i.rep.size, implicit := i.implicit }

/-- The instructions of a function, numbered from `pc`, as those of an image;
a call of another function cannot be kept. -/
def gatherInsns (ref : TypeId → GatherM Int) (f : Func) : Nat → List Insn → GatherM (List ImageInsn)
  | _, [] => pure []
  | pc, i :: rest => do
    if i.op = .call ∧ i.callee ≠ f.id then
      throw { cause := .foreignCall pc, function := f.name }
    let type ← ref i.type
    return ofInsn i type :: (← gatherInsns ref f (pc + 1) rest)

def gatherValues (ref : TypeId → GatherM Int) : List ValueInfo → GatherM (List ImageValue)
  | [] => pure []
  | v :: rest => do
    let type ← ref v.type
    let value : ImageValue :=
      { type, origin := v.origin.code, param := v.param, bits := v.bits,
        addressable := v.addressable }
    return value :: (← gatherValues ref rest)

def ofFunc (target : Target) (t : TypeTable) (f : Func) : Except Failure Image := do
  let ref := gather t (t.size + 1)
  let act : GatherM Image := do
    let sig ← ref f.sig
    let values ← gatherValues ref (f.values.toList.drop 1)
    let insns ← gatherInsns ref f 0 f.insns.toList
    return { version := Cause.currentImageVersion, target := target.triple, name := f.name, sig,
             values := some ({} :: values), params := listed? f.params,
             labels := some f.labels.toList, insns := some insns }
  let (answer, g) := (act.run {} : Except Failure Image × Gathered)
  let img ← answer
  pure { img with types := listed? g.types.toList }

end Image

def Engine.exportImage (e : Engine) (fn : FuncId) : Except Failure Image := do
  let f ← e.findFunc fn
  if !f.compiled then throw { cause := .notExportable, function := f.name }
  Image.ofFunc e.target e.types f

namespace EngineM

/-- The type an image's number stands for among the types loaded so far;
number 0 stands for none. -/
def loadedType (ids : Array TypeId) (ref : Int) : EngineM TypeId :=
  if ref = 0 then pure 0
  else match (if ref < 0 then none else ids[ref.toNat - 1]?) with
    | some 0 => fail (.imageTypeRef ref)
    | some id => pure id
    | none => fail (.imageTypeRef ref)

def loadType (ids : Array TypeId) (n : Nat) (it : ImageType) : EngineM TypeId := do
  let ref := loadedType ids
  match Kind.ofCode it.kind with
  | .void => makeType (·.intern { kind := .void, width := it.width })
  | .int => makeType (·.intern (.int it.width))
  | .uint => makeType (·.intern (.uint it.width))
  | .float => makeType (·.intern (.float it.width))
  | .pointer =>
    let elem ← ref it.elem
    makeType (·.intern (.pointer elem))
  | .tagged =>
    let elem ← ref it.elem
    makeType (·.addTagged elem { tag := Tag.ofCode it.tag, data := it.data })
  | .struct =>
    let fields ← (it.fields.getD []).mapM ref
    let id ← makeType (·.addStruct fields)
    let names := it.names.getD []
    if names.length = fields.length then
      modify fun e => { e with types := (e.types.setNames? id names).getD e.types }
    pure id
  | .signature =>
    let params ← (it.params.getD []).mapM ref
    let result ← ref it.result
    makeType (·.addSignature { abi := Abi.ofCode it.abi, params, result })
  | k => fail (.imageTypeKind n k)

def loadTypes (ids : Array TypeId) : List ImageType → EngineM (Array TypeId)
  | [] => pure ids
  | it :: rest => do
    let id ← loadType ids (ids.size + 1) it
    loadTypes (ids.push id) rest

def imageType (f : Func) (ids : Array TypeId) (ref : Int) : EngineM TypeId :=
  if ref = 0 then pure 0
  else match (if ref < 0 then none else ids[ref.toNat - 1]?) with
    | some id => pure id
    | none => failIn f (.imageTypeRef ref)

def modifyFunc (fn : FuncId) (g : Func → Func) : EngineM Unit :=
  modify fun e => { e with funcs := e.funcs.modify (fn - 1) g }

def loadValues (f : Func) (ids : Array TypeId) : List ImageValue → EngineM Unit
  | [] => pure ()
  | v :: rest => do
    let type ← imageType f ids v.type
    let rep ← try repOf type catch err => throw (err.within f.name)
    modifyFunc f.id fun g =>
      (g.addValue { type, rep, origin := .ofCode v.origin, param := v.param, bits := v.bits,
                    addressable := v.addressable }).2
    loadValues f ids rest

/-- Checks that the parameters of an image, numbered from `i`, are the values
they have to be, and takes over which of them are addressable. -/
def loadParams (f : Func) (values : List ImageValue) : Nat → List ValueId → List Nat → EngineM Unit
  | i, own :: owns, p :: ps => do
    if own ≠ p then failIn f (.imageParam i p)
    let addressable := ((values[p]?).map (·.addressable)).getD false
    modifyFunc f.id fun g => { g with values := g.values.modify p ({ · with addressable }) }
    loadParams f values (i + 1) owns ps
  | _, _, _ => pure ()

def firstUnknown? (count : Nat) (vs : List Nat) : Option Nat :=
  vs.find? fun v => count ≤ v

def loadInsns (f : Func) (ids : Array TypeId) (valueCount labelCount : Nat) :
    Nat → List ImageInsn → EngineM Unit
  | _, [] => pure ()
  | pc, i :: rest => do
    match firstUnknown? valueCount (i.dest :: i.a :: i.b :: i.args.getD []) with
    | some v => failIn f (.imageValue v)
    | none => pure ()
    if labelCount ≤ i.label then failIn f (.imageLabel pc i.label)
    let type ← imageType f ids i.type
    let insn : Insn :=
      { op := .ofCode i.op, dest := i.dest, a := i.a, b := i.b, args := i.args.getD [],
        label := i.label, offset := i.offset, type,
        callee := if i.selfCall then f.id else 0, native := i.native, math := .ofCode i.math,
        rep := { cls := .ofCode i.cls, size := i.size }, implicit := i.implicit }
    modifyFunc f.id (·.push insn)
    note (.point .insn ("insn:" ++ insn.op.name) f.name)
    loadInsns f ids valueCount labelCount (pc + 1) rest

def importImage (ctx : ContextId) (img : Option Image) : EngineM FuncId := do
  match img with
  | none => fail .noImage
  | some img =>
    let target := (← get).target
    if img.version ≠ Cause.currentImageVersion then fail (.imageVersion img.version)
    if img.target ≠ target.triple then fail (.imageTarget img.target target.triple)
    let ids ← loadTypes #[] (img.types.getD [])
    if img.sig ≤ 0 ∨ (ids.size : Int) < img.sig then fail (.imageSignatureRef img.sig)
    let fn ← createFunction ctx (ids.getD (img.sig.toNat - 1) 0) img.name
    let f ← openFunc fn
    let values := img.values.getD []
    let params := img.params.getD []
    if params.length ≠ f.params.length ∨ values.length < f.values.size then
      failIn f (.imageParamCount params.length f.params.length)
    loadValues f ids (values.drop f.values.size)
    loadParams f values 0 f.params params
    modifyFunc fn fun g => { g with labels := g.labels ++ ((img.labels.getD []).drop 1).toArray }
    let f' ← openFunc fn
    loadInsns f ids f'.values.size f'.labels.size 0 (img.insns.getD [])
    compile fn
    pure fn

end EngineM

end TypedIR
