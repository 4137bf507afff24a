import TypedIR.Build.Basic

/-
  Types of the builder: how they are made and what can be asked of them.

  Questions look through names. Types of different runtimes can be compared:
  they are compatible if they are built alike, whatever they are called.
-/

namespace TypedIR

open Text

def Builtin.tyKind : Builtin → TyKind
  | .void => .void
  | .bool => .bool
  | .voidPtr | .stringz => .pointer
  | _ => .primitive

def Builtin.ty (b : Builtin) (rt : RuntimeId) : Ty :=
  { owner := some rt, id := b.id, kind := b.tyKind }

def Builtin.ofTag? : String → Option Builtin
  | "void" => some .void
  | "bool" => some .bool
  | "int8" => some .int8
  | "int16" => some .int16
  | "int32" => some .int32
  | "int64" => some .int64
  | "uint8" => some .uint8
  | "uint16" => some .uint16
  | "uint32" => some .uint32
  | "uint64" => some .uint64
  | "intn" => some .nint
  | "uintn" => some .nuint
  | "float32" => some .float32
  | "float64" => some .float64
  | "stringz" => some .stringz
  | _ => none

def TypeTable.tyKind? (t : TypeTable) (id : TypeId) : Option TyKind :=
  if t.isBool id then some .bool
  else match t.kindOf (t.underlying id) with
    | .struct => some .struct
    | .pointer => some .pointer
    | .signature => some .signature
    | .void => some .void
    | .int | .uint | .float => some .primitive
    | _ => none

def TypeTable.wrap? (t : TypeTable) (rt : RuntimeId) (id : TypeId) : Option Ty :=
  (t.tyKind? id).map fun kind => { owner := some rt, id, kind }

namespace BuildM

def table (rt : RuntimeId) : BuildM TypeTable := do
  return (← engine rt).types

def wrapType (rt : RuntimeId) (id : TypeId) : BuildM Ty := do
  match (← table rt).wrap? rt id with
  | some t => pure t
  | none => complain "wrap" (.noWrapper id)

/-- A type of the engine that is known to have a use; the builder panics if it
has none. -/
def mustWrap (rt : RuntimeId) (id : TypeId) : BuildM Ty := do
  match (← table rt).wrap? rt id with
  | some t => pure t
  | none => throw .panicked

def tyText (t : Ty) : BuildM String := do
  match t.owner with
  | some rt => if t.valid then return (← table rt).text t.id else pure "<invalid type>"
  | none => pure "<invalid type>"

def valText (v : Val) : BuildM String := do
  if v.valid then return "v" ++ decimalNat v.id ++ ":" ++ (← tyText v.type)
  else pure "<invalid value>"

def primitiveType (rt : RuntimeId) (tag : Bytes) : BuildM Ty :=
  match Builtin.ofTag? (lossyText tag) with
  | some b => pure (b.ty rt)
  | none => complain "create" (.unknownTag tag)

def pointerTy (rt : RuntimeId) (target : Ty) : BuildM Ty := do
  if !target.valid then complain "create" .pointerTarget
  let id ← onEngine rt "create" (EngineM.pointerType target.id)
  wrapType rt id

def validFields : Nat → List Ty → BuildM Unit
  | _, [] => pure ()
  | i, f :: rest => do
    if !f.valid then complain "create" (.structField i)
    validFields (i + 1) rest

def structTy (rt : RuntimeId) (fields : List Ty) : BuildM Ty := do
  validFields 0 fields
  let id ← onEngine rt "create" (EngineM.structType (fields.map (·.id)))
  wrapType rt id

/-- Complains about the first parameter, numbered from `i`, that cannot be
one. -/
def validParams : Nat → List Ty → BuildM Unit
  | _, [] => pure ()
  | i, p :: rest => do
    if !p.valid then complain "create" (.signatureParam i)
    if p.kind = .void then complain "create" (.signatureParamVoid i)
    validParams (i + 1) rest

def signatureTy (rt : RuntimeId) (params : List Ty) (ret : Ty) (abi : Abi) : BuildM Ty := do
  if !ret.valid then complain "create" .signatureReturn
  validParams 0 params
  let id ← onEngine rt "create" (EngineM.signatureType abi ret.id (params.map (·.id)))
  wrapType rt id

def hostText : HostValue → BuildM String
  | .nothing => pure "<nil>"
  | .bool b => pure (truth b)
  | .int _ n => pure (decimal n)
  | .float32 b => pure (Decimal.shortText32 (Float32.ofBits b))
  | .float64 b => pure (Decimal.shortText (Float.ofBits b))
  | .str s => pure (lossyText s)
  | .numbers => pure "[]"
  | .type t => tyText t
  | .value v => valText v
  | .tag s => pure s
  | .abi a => pure a.name
  | .types ts => do
    return "[" ++ String.intercalate " " (← ts.mapM tyText) ++ "]"
  | .items xs => do
    return "[" ++ String.intercalate " " (← hostTexts xs) ++ "]"
where
  /-- Host values as they are written one after the other. -/
  hostTexts : List HostValue → BuildM (List String)
    | [] => pure []
    | x :: rest => do
      let s ← hostText x
      return s :: (← hostTexts rest)

def asTag? : HostValue → Option Bytes
  | .tag s => some (bytesOf s)
  | .str s => some s
  | _ => none

def typeOfTag (rt : RuntimeId) (tag : Bytes) : BuildM Ty := do
  match lossyText tag with
  | "pointer" => pointerTy rt (Builtin.void.ty rt)
  | "struct" => structTy rt []
  | "signature" => complain "create" .signatureShape
  | _ => primitiveType rt tag

def typeArg (rt : RuntimeId) (a : HostValue) : BuildM Ty := do
  match a, asTag? a with
  | .type t, _ => if t.valid then pure t else complain "create" .invalidTypeArgument
  | _, some tag => typeOfTag rt tag
  | a, none => complain "create" (.unknownTypeArgument (← hostText a))

def typeArgs (rt : RuntimeId) : List HostValue → BuildM (List Ty)
  | [] => pure []
  | a :: rest => do
    let t ← typeArg rt a
    return t :: (← typeArgs rt rest)

def abiArg (a : HostValue) : BuildM Abi := do
  match a with
  | .abi v => pure v
  | .str s =>
    match Abi.ofName? (lossyText s) with
    | some v => pure v
    | none => complain "create" (.unknownAbi (lossyText s))
  | a => complain "create" (.unknownAbi (← hostText a))

def pointerChain (rt : RuntimeId) (target : Ty) : List HostValue → BuildM Ty
  | [] => pure target
  | a :: rest => do
    if asTag? a ≠ some (bytesOf "pointer") then complain "create" (.pointerChain (← hostText a))
    pointerChain rt (← pointerTy rt target) rest

def paramItems (a : HostValue) : BuildM (List HostValue) :=
  match a with
  | .items xs => pure xs
  | .types ts => pure (ts.map .type)
  | .nothing => pure []
  | a => complain "create" (.paramsNotList a.typeName)

/-- The type that a description stands for: a type alone, or a tag and what
the tag takes. -/
def createType (rt : RuntimeId) (args : List HostValue) : BuildM Ty := do
  match args with
  | [] => complain "create" .missingTag
  | [.type t] => pure t
  | head :: rest =>
    match asTag? head with
    | none => complain "create" (.unknownTagItem (← hostText head))
    | some tag =>
      match lossyText tag with
      | "pointer" =>
        match rest.reverse with
        | [] => pointerTy rt (Builtin.void.ty rt)
        | last :: chain => pointerTy rt (← pointerChain rt (← typeArg rt last) chain)
      | "struct" => structTy rt (← typeArgs rt rest)
      | "signature" =>
        match rest with
        | params :: ret :: more =>
          if 1 < more.length then complain "create" .signatureShape
          let params ← typeArgs rt (← paramItems params)
          let ret ← typeArg rt ret
          let abi ← match more with
            | [] => pure .cdecl
            | a :: _ => abiArg a
          signatureTy rt params ret abi
        | _ => complain "create" .signatureShape
      | name =>
        if !rest.isEmpty then complain "create" (.takesNoArguments name)
        primitiveType rt tag

def ownerOf (t : Ty) : BuildM RuntimeId :=
  match t.owner with
  | some rt => pure rt
  | none => throw .crashed

def layoutOf? (t : Ty) : BuildM (Option Layout) := do
  match t.owner with
  | some rt =>
    if !t.valid then return none
    match ← tryEngine rt (EngineM.layoutOf t.id) with
    | .ok (.ok l) => pure (some l)
    | _ => pure none
  | none => pure none

def sizeOf (t : Ty) : BuildM Int := do
  return ((← layoutOf? t).map (·.size)).getD 0

def alignOf (t : Ty) : BuildM Int := do
  return ((← layoutOf? t).map (·.align)).getD 1

def widthOf (t : Ty) : BuildM Int := do
  return wrap64 ((← sizeOf t) * 8)

def baseOf (t : Ty) : BuildM Descriptor := do
  match t.owner with
  | some rt =>
    let table ← table rt
    if t.valid then return (table.find? (table.underlying t.id)).getD { kind := .invalid }
    else pure { kind := .invalid }
  | none => pure { kind := .invalid }

def isInteger (t : Ty) : BuildM Bool := do
  return t.kind == .primitive && (← baseOf t).isInteger

def isFloat (t : Ty) : BuildM Bool := do
  return t.kind == .primitive && (← baseOf t).kind == .float

def isSigned (t : Ty) : BuildM Bool := do
  return t.kind == .bool || (t.kind == .primitive && (← baseOf t).kind == .int)

def isUnsigned (t : Ty) : BuildM Bool := do
  return t.kind == .primitive && (← baseOf t).kind == .uint

def isNative (t : Ty) : BuildM Bool := do
  return (← isInteger t) && (← baseOf t).width == 0

def targetOf? (t : Ty) : BuildM (Option Ty) := do
  if t.kind ≠ .pointer then return none
  let rt ← ownerOf t
  let table ← table rt
  pure ((table.pointerTarget? t.id).bind (table.wrap? rt))

def fieldCount (t : Ty) : BuildM Nat := do
  if t.kind ≠ .struct then return 0
  return (← engine (← ownerOf t)).fieldCount t.id

def checkField (t : Ty) (op : String) (i : Int) : BuildM Unit := do
  if t.kind ≠ .struct then complain op (.notStruct (← tyText t))
  let n ← fieldCount t
  if i < 0 ∨ n ≤ i then complain op (.fieldRange i n (← tyText t))

def fieldType (t : Ty) (i : Int) : BuildM Ty := do
  checkField t "field_type" i
  let rt ← ownerOf t
  let f ← onEngine rt "field_type" (EngineM.field t.id i)
  wrapType rt f.type

def fieldOffset (t : Ty) (i : Int) : BuildM Int := do
  checkField t "offset" i
  onEngine (← ownerOf t) "offset" (EngineM.fieldOffset t.id i)

def fieldName (t : Ty) (i : Int) : BuildM String := do
  checkField t "field_name" i
  return (← onEngine (← ownerOf t) "field_name" (EngineM.field t.id i)).name

def setFieldNames (t : Ty) (names : List String) : BuildM Unit := do
  if t.kind ≠ .struct then complain "set_names" (.notStruct (← tyText t))
  let n ← fieldCount t
  if names.length ≠ n then complain "set_names" (.nameCount names.length n)
  onEngine (← ownerOf t) "set_names" (EngineM.setFieldNames t.id names)

def findField (t : Ty) (name : String) : BuildM Nat := do
  if t.kind ≠ .struct then complain "find_field" (.notStruct (← tyText t))
  match (← engine (← ownerOf t)).findField? t.id name with
  | some i => pure i
  | none => complain "find_field" (.noField (← tyText t) name)

def withName (t : Ty) (name : String) : BuildM Ty := do
  if !t.valid then complain "with_name" .invalidType
  let rt ← ownerOf t
  let tag : Tag := if t.kind = .struct then .structName else .name
  let id ← onEngine rt "with_name" (EngineM.taggedType t.id tag name)
  wrapType rt id

def nameOf (t : Ty) : BuildM String := do
  if !t.valid then return ""
  let e ← engine (← ownerOf t)
  match e.tagOf t.id with
  | .name | .structName => pure (e.tagData t.id)
  | _ => pure ""

def isStringz (t : Ty) : BuildM Bool := do
  if !t.valid then return false
  return (← engine (← ownerOf t)).tagOf t.id == .stringz

def signatureOf? (t : Ty) : BuildM (Option Signature) := do
  if t.kind ≠ .signature then return none
  return (← engine (← ownerOf t)).signature? t.id

def paramsOf (t : Ty) : BuildM (List Ty) := do
  match ← signatureOf? t with
  | some s => do
    let rt ← ownerOf t
    s.params.mapM (mustWrap rt)
  | none => pure []

def returnOf (t : Ty) : BuildM Ty := do
  if t.kind ≠ .signature then return {}
  let rt ← ownerOf t
  mustWrap rt (((← signatureOf? t).map (·.result)).getD 0)

def abiOf (t : Ty) : BuildM Abi := do
  return ((← signatureOf? t).map (·.abi)).getD .cdecl

def isVariadic (t : Ty) : BuildM Bool := do
  return ((← signatureOf? t).map (·.variadic)).getD false

def offsetOrZero (t : Ty) (i : Nat) : BuildM Int := do
  match ← attempt (fieldOffset t i) with
  | .ok off => pure off
  | .error _ => pure 0

def allPairs (rel : Ty → Ty → BuildM Bool) : List Ty → List Ty → BuildM Bool
  | [], [] => pure true
  | a :: as, b :: bs => do
    if ← rel a b then allPairs rel as bs else pure false
  | _, _ => pure false

/-- Whether the fields of two structs from index `i` on, `k` of them, have the
same offsets and related types. -/
def fieldsAgree (rel : Ty → Ty → BuildM Bool) (a b : Ty) : Nat → Nat → BuildM Bool
  | _, 0 => pure true
  | i, k + 1 => do
    let fa ← attempt (fieldType a i)
    let fb ← attempt (fieldType b i)
    let oa ← offsetOrZero a i
    let ob ← offsetOrZero b i
    match fa, fb with
    | .ok fa, .ok fb =>
      if oa ≠ ob then return false
      if ← rel fa fb then fieldsAgree rel a b (i + 1) k else pure false
    | _, _ => pure false

/-- Whether two types are built alike; `n` bounds how deep they are
followed, and `last` has its say on what is deeper. -/
def compatibleWithin (last : Ty → Ty → BuildM Bool) : Nat → Ty → Ty → BuildM Bool
  | 0, a, b => last a b
  | n + 1, a, b => do
    if !a.valid || !b.valid || a.kind != b.kind then return false
    if a.owner = b.owner ∧ a.id = b.id then return true
    match a.kind with
    | .void | .bool => pure true
    | .primitive =>
      let x ← baseOf a
      let y ← baseOf b
      pure (x.kind == y.kind && x.width == y.width)
    | .pointer =>
      match ← targetOf? a, ← targetOf? b with
      | some ta, some tb => compatibleWithin last n ta tb
      | _, _ => pure false
    | .struct =>
      let count ← fieldCount a
      if count ≠ (← fieldCount b) then return false
      fieldsAgree (compatibleWithin last n) a b 0 count
    | .signature =>
      if (← abiOf a) ≠ (← abiOf b) then return false
      if !(← compatibleWithin last n (← returnOf a) (← returnOf b)) then return false
      let pa ← paramsOf a
      let pb ← paramsOf b
      allPairs (compatibleWithin last n) pa pb
    | .invalid => pure false

def tableSize (t : Ty) : BuildM Nat := do
  match t.owner with
  | some rt => return (← table rt).size
  | none => pure 0

/-- Whether two types are built alike. Every step goes to an earlier type of
the table, so the size of a table bounds the steps; a walk that went on for
longer would crash. -/
def compatible (a b : Ty) : BuildM Bool := do
  compatibleWithin (fun _ _ => throw .crashed) ((← tableSize a) + (← tableSize b) + 1) a b

end BuildM

end TypedIR
