import TypedIR.Types.Basic

/-
  The type table.

  Types are added and never removed or changed; only field names of a struct
  may be set later. Equal descriptors, signatures and decorations share one
  type, while every struct is a type of its own, because its fields can be
  named after it was made.

  The first slot of each side table is a placeholder, so slot 0 names nothing.
-/

namespace TypedIR

open Text

/-- The table of all types. -/
structure TypeTable where
  types : Array Descriptor := #[]
  structs : Array (List Field) := #[]
  signatures : Array Signature := #[]
  decorations : Array Decoration := #[]
  deriving Inhabited

namespace TypeTable

def size (t : TypeTable) : Nat := t.types.size

def find? (t : TypeTable) (id : TypeId) : Option Descriptor :=
  if id = 0 then none else t.types[id]?

def append (t : TypeTable) (d : Descriptor) : TypeId × TypeTable :=
  (t.types.size, { t with types := t.types.push d })

def intern (t : TypeTable) (d : Descriptor) : TypeId × TypeTable :=
  if d.kind = .invalid then (0, t)
  else match t.types.findIdx? (· == d) with
    | some id => (id, t)
    | none => t.append d

def addStruct (t : TypeTable) (fields : List TypeId) : TypeId × TypeTable :=
  let t := { t with structs := t.structs.push (fields.map fun f => { type := f }) }
  t.append { kind := .struct, slot := t.structs.size - 1 }

def isSignature (t : TypeTable) (s : Signature) (d : Descriptor) : Bool :=
  d.kind == .signature && t.signatures[d.slot]? == some s

def addSignature (t : TypeTable) (s : Signature) : TypeId × TypeTable :=
  match (t.types.toList.drop 1).findIdx? (t.isSignature s) with
  | some i => (i + 1, t)
  | none =>
    let t := { t with signatures := t.signatures.push s }
    t.append { kind := .signature, slot := t.signatures.size - 1 }

def isDecorated (t : TypeTable) (base : TypeId) (deco : Decoration) (d : Descriptor) : Bool :=
  d.kind == .tagged && d.elem == base && t.decorations[d.slot]? == some deco

def addTagged (t : TypeTable) (base : TypeId) (deco : Decoration) : TypeId × TypeTable :=
  match (t.types.toList.drop 1).findIdx? (t.isDecorated base deco) with
  | some i => (i + 1, t)
  | none =>
    let t := { t with decorations := t.decorations.push deco }
    t.append { kind := .tagged, elem := base, slot := t.decorations.size - 1 }

def initial : TypeTable :=
  let t : TypeTable :=
    { types := #[{ kind := .invalid }], structs := #[[]], signatures := #[{}],
      decorations := #[{}] }
  let scalars : List Descriptor :=
    [{ kind := .void }, .int 8, .int 16, .int 32, .int 64, .uint 8, .uint 16, .uint 32, .uint 64,
     .int 0, .uint 0, .float 32, .float 64, .pointer Builtin.void.id]
  let t := scalars.foldl (fun t d => (t.intern d).2) t
  let (_, t) := t.addTagged Builtin.int8.id { tag := .bool }
  let (bytePtr, t) := t.intern (.pointer Builtin.uint8.id)
  (t.addTagged bytePtr { tag := .stringz }).2

def kindOf (t : TypeTable) (id : TypeId) : Kind :=
  ((t.find? id).map (·.kind)).getD .invalid

def stripTags (t : TypeTable) : Nat → TypeId → TypeId
  | 0, id => id
  | n + 1, id =>
    match t.find? id with
    | some d => if d.kind = .tagged then t.stripTags n d.elem else id
    | none => id

def underlying (t : TypeTable) (id : TypeId) : TypeId :=
  t.stripTags t.types.size id

def pointerTarget? (t : TypeTable) (id : TypeId) : Option TypeId :=
  match t.find? (t.underlying id) with
  | some d => if d.kind = .pointer then some d.elem else none
  | none => none

def fields? (t : TypeTable) (id : TypeId) : Option (List Field) :=
  match t.find? id with
  | some d => if d.kind = .struct ∧ d.slot ≠ 0 then t.structs[d.slot]? else none
  | none => none

def fieldsOf (t : TypeTable) (id : TypeId) : List Field :=
  (t.fields? id).getD []

def renameFields : List Field → List String → List Field
  | [], _ => []
  | f :: fs, [] => { f with name := "" } :: renameFields fs []
  | f :: fs, n :: ns => { f with name := n } :: renameFields fs ns

def setNames? (t : TypeTable) (id : TypeId) (names : List String) : Option TypeTable :=
  match t.find? id, t.fields? id with
  | some d, some fs =>
    some { t with structs := t.structs.setIfInBounds d.slot (renameFields fs names) }
  | _, _ => none

def findField? (t : TypeTable) (id : TypeId) (name : String) : Option Nat :=
  if name = "" then none else (t.fieldsOf id).findIdx? fun f => f.name == name

def signature? (t : TypeTable) (id : TypeId) : Option Signature :=
  match t.find? id with
  | some d => if d.kind = .signature then t.signatures[d.slot]? else none
  | none => none

/-- The signature that keeps the parameters of `id` and takes `extra` more;
it describes one call through a variadic signature. -/
def extendSignature? (t : TypeTable) (id : TypeId) (extra : List TypeId) :
    Option (TypeId × TypeTable) :=
  (t.signature? id).map fun s =>
    t.addSignature { abi := .cdecl, params := s.params ++ extra, result := s.result }

def decoration? (t : TypeTable) (id : TypeId) : Option Decoration :=
  match t.find? id with
  | some d => if d.kind = .tagged ∧ d.slot ≠ 0 then t.decorations[d.slot]? else none
  | none => none

def boolWithin (t : TypeTable) : Nat → TypeId → Bool
  | 0, _ => false
  | n + 1, id =>
    match t.decoration? id with
    | none => false
    | some deco =>
      deco.tag == .bool || t.boolWithin n (((t.find? id).map (·.elem)).getD 0)

def isBool (t : TypeTable) (id : TypeId) : Bool :=
  t.boolWithin t.types.size id

end TypeTable

/-! ## Texts of types

How types are written in listings and messages.

A pointer is `*T`, a struct `struct{a int8, b T}`, a signature
`fn(T, ...) -> T`, and a named type is its name. Nesting deeper than sixteen
levels is cut short.
-/

namespace TypeTable

def numericName (d : Descriptor) : String :=
  match d.kind with
  | .int => if d.width = 0 then "intn" else "int" ++ decimalNat d.width.toNat
  | .uint => if d.width = 0 then "uintn" else "uint" ++ decimalNat d.width.toNat
  | .float => "float" ++ decimalNat d.width.toNat
  | k => k.name

def textDepth : Nat := 17

def textWithin (t : TypeTable) : Nat → TypeId → String
  | 0, _ => "..."
  | n + 1, id =>
    match t.find? id with
    | none => "type#" ++ decimalNat id
    | some d =>
      match d.kind with
      | .void => "void"
      | .int | .uint | .float => numericName d
      | .pointer => "*" ++ t.textWithin n d.elem
      | .struct =>
        let parts := (t.fieldsOf id).map fun f =>
          if f.name = "" then t.textWithin n f.type else f.name ++ " " ++ t.textWithin n f.type
        "struct\x7b" ++ String.intercalate ", " parts ++ "\x7d"
      | .signature =>
        match t.signature? id with
        | none => "fn()"
        | some s =>
          let parts := s.params.map (t.textWithin n) ++ (if s.variadic then ["..."] else [])
          "fn(" ++ String.intercalate ", " parts ++ ") -> " ++ t.textWithin n s.result
      | .tagged =>
        match t.decoration? id with
        | none => t.textWithin n d.elem
        | some deco =>
          match deco.tag with
          | .bool => "bool"
          | .stringz => "stringz"
          | .name | .structName =>
            if deco.data = "" then t.textWithin n d.elem else deco.data
          | _ => t.textWithin n d.elem
      | k => k.name

def text (t : TypeTable) (id : TypeId) : String :=
  t.textWithin textDepth id

end TypeTable

end TypedIR
