import TypedIR.Engine.Basic

/-
  Types as the engine makes and describes them. A type that mentions another
  type can only be made when that one is known; questions look through tags.
-/

namespace TypedIR

namespace EngineM

def knownType (id : TypeId) : EngineM Unit := do
  if ((← get).types.find? id).isNone then fail (.unknownType id)

def makeType (f : TypeTable → TypeId × TypeTable) : EngineM TypeId := do
  let e ← get
  let (id, types) := f e.types
  set { e with types }
  pure id

def primitive (n : Nat) : EngineM TypeId :=
  match Builtin.ofNumber? n with
  | some b => pure b.id
  | none => fail (.unknownPrimitive n)

def pointerType (target : TypeId) : EngineM TypeId := do
  knownType target
  makeType (·.intern (.pointer target))

/-- A fresh struct. A struct that has no layout is refused, though the table
keeps it. -/
def structType (fields : List TypeId) : EngineM TypeId := do
  fields.forM knownType
  let id ← makeType (·.addStruct fields)
  match ← layoutOf id with
  | .ok _ => pure id
  | .error r => fail (.layout r)

def signatureType (abi : Abi) (result : TypeId) (params : List TypeId) : EngineM TypeId := do
  knownType result
  params.forM knownType
  makeType (·.addSignature { abi, params, result })

def taggedType (base : TypeId) (tag : Tag) (data : String) : EngineM TypeId := do
  knownType base
  makeType (·.addTagged base { tag, data })

def setFieldNames (id : TypeId) (names : List String) : EngineM Unit := do
  let e ← get
  match e.types.setNames? (e.types.underlying id) names with
  | some types => set { e with types }
  | none => fail (.notNameable names.length (e.typeText id))

def field (id : TypeId) (i : Int) : EngineM Field := do
  let t := (← get).types
  let fields := t.fieldsOf (t.underlying id)
  match (if i < 0 then none else fields[i.toNat]?) with
  | some f => pure f
  | none => fail (.fieldRange i fields.length (t.text id))

def fieldOffset (id : TypeId) (i : Int) : EngineM Int := do
  let _ ← field id i
  let t := (← get).types
  match (← layoutOf (t.underlying id)).fieldOffset? i with
  | some off => pure off
  | none => fail (.noLayout (t.text id))

end EngineM

namespace Engine

def tagOf (e : Engine) (id : TypeId) : Tag :=
  ((e.types.decoration? id).map (·.tag)).getD .none

def taggedBase (e : Engine) (id : TypeId) : TypeId :=
  match e.types.find? id with
  | some d => if d.kind = .tagged then d.elem else id
  | none => id

def tagData (e : Engine) (id : TypeId) : String :=
  ((e.types.decoration? id).map (·.data)).getD ""

def fieldCount (e : Engine) (id : TypeId) : Nat :=
  (e.types.fieldsOf (e.types.underlying id)).length

def findField? (e : Engine) (id : TypeId) (name : String) : Option Nat :=
  e.types.findField? (e.types.underlying id) name

def signature? (e : Engine) (id : TypeId) : Option Signature :=
  e.types.signature? (e.types.underlying id)

end Engine

end TypedIR
