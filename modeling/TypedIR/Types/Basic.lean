import TypedIR.Text.Numeral

/-
  What a type is: a descriptor in the type table.

  A type is named by its position in the table. Position 0 holds no type, so 0
  is the name of "no type". Descriptors are small: the fields of a struct, the
  parameters of a signature and the decoration of a tagged type are kept in
  tables of their own and reached through the descriptor's slot.
-/

namespace TypedIR

open Text

abbrev TypeId := Nat

/-- The kinds of types. A code outside the known ones is kept as it is. -/
inductive Kind where
  | invalid
  | void
  | int
  | uint
  | float
  | pointer
  | struct
  | signature
  | tagged
  | other (code : UInt8)
  deriving DecidableEq, Repr, Inhabited

namespace Kind

def ofCode (n : UInt8) : Kind :=
  match n.toNat with
  | 0 => .invalid
  | 1 => .void
  | 2 => .int
  | 3 => .uint
  | 4 => .float
  | 5 => .pointer
  | 6 => .struct
  | 7 => .signature
  | 8 => .tagged
  | _ => .other n

def code : Kind → UInt8
  | .invalid => 0
  | .void => 1
  | .int => 2
  | .uint => 3
  | .float => 4
  | .pointer => 5
  | .struct => 6
  | .signature => 7
  | .tagged => 8
  | .other n => n

def name : Kind → String
  | .invalid => "invalid"
  | .void => "void"
  | .int => "int"
  | .uint => "uint"
  | .float => "float"
  | .pointer => "pointer"
  | .struct => "struct"
  | .signature => "signature"
  | .tagged => "tagged"
  | .other n => "Kind(" ++ decimalNat n.toNat ++ ")"

end Kind

/-- The calling conventions of signatures. -/
inductive Abi where
  | cdecl
  | vararg
  | stdcall
  | fastcall
  | other (code : UInt8)
  deriving DecidableEq, Repr, Inhabited

namespace Abi

def ofCode (n : UInt8) : Abi :=
  match n.toNat with
  | 0 => .cdecl
  | 1 => .vararg
  | 2 => .stdcall
  | 3 => .fastcall
  | _ => .other n

def code : Abi → UInt8
  | .cdecl => 0
  | .vararg => 1
  | .stdcall => 2
  | .fastcall => 3
  | .other n => n

def name : Abi → String
  | .cdecl => "cdecl"
  | .vararg => "vararg"
  | .stdcall => "stdcall"
  | .fastcall => "fastcall"
  | .other n => "ABI(" ++ decimalNat n.toNat ++ ")"

def ofName? : String → Option Abi
  | "" => some .cdecl
  | "cdecl" => some .cdecl
  | "vararg" => some .vararg
  | "stdcall" => some .stdcall
  | "fastcall" => some .fastcall
  | _ => none

end Abi

/-- What a tag says about the type it decorates. -/
inductive Tag where
  | none
  /-- A free name for any type. -/
  | name
  /-- The name of a struct. -/
  | structName
  /-- An 8-bit integer that holds a truth value. -/
  | bool
  /-- A byte pointer to a string that ends in a zero byte. -/
  | stringz
  | other (code : UInt8)
  deriving DecidableEq, Repr, Inhabited

namespace Tag

def ofCode (n : UInt8) : Tag :=
  match n.toNat with
  | 0 => .none
  | 1 => .name
  | 2 => .structName
  | 3 => .bool
  | 4 => .stringz
  | _ => .other n

def code : Tag → UInt8
  | .none => 0
  | .name => 1
  | .structName => 2
  | .bool => 3
  | .stringz => 4
  | .other n => n

def label : Tag → String
  | .none => "none"
  | .name => "name"
  | .structName => "struct_name"
  | .bool => "bool"
  | .stringz => "stringz"
  | .other n => "TagKind(" ++ decimalNat n.toNat ++ ")"

end Tag

/-- A descriptor: kind, pointer target or tagged base, width in bits of a
numeric type (0 is the width of a pointer), and the slot of a struct,
signature or tag. -/
structure Descriptor where
  kind : Kind
  elem : TypeId := 0
  width : UInt8 := 0
  slot : Nat := 0
  deriving DecidableEq, Repr, Inhabited

namespace Descriptor

def int (width : UInt8) : Descriptor := { kind := .int, width }

def uint (width : UInt8) : Descriptor := { kind := .uint, width }

def float (width : UInt8) : Descriptor := { kind := .float, width }

def pointer (target : TypeId) : Descriptor := { kind := .pointer, elem := target }

def isInteger (d : Descriptor) : Bool :=
  d.kind == .int || d.kind == .uint

def isScalar (d : Descriptor) : Bool :=
  match d.kind with
  | .int | .uint | .float | .pointer | .signature => true
  | _ => false

end Descriptor

/-- One field of a struct; the name is empty until one is attached. -/
structure Field where
  name : String := ""
  type : TypeId
  deriving DecidableEq, Repr, Inhabited

/-- The parts of a signature. -/
structure Signature where
  abi : Abi := .cdecl
  params : List TypeId := []
  result : TypeId := 0
  deriving DecidableEq, Repr, Inhabited

def Signature.variadic (s : Signature) : Bool := s.abi == .vararg

/-- The decoration of a tagged type. -/
structure Decoration where
  tag : Tag := .none
  data : String := ""
  deriving DecidableEq, Repr, Inhabited

/-- The types every table starts with. -/
inductive Builtin where
  | void
  | int8
  | int16
  | int32
  | int64
  | uint8
  | uint16
  | uint32
  | uint64
  | nint
  | nuint
  | float32
  | float64
  | voidPtr
  | bool
  | stringz
  deriving DecidableEq, Repr, Inhabited

namespace Builtin

def all : List Builtin :=
  [.void, .int8, .int16, .int32, .int64, .uint8, .uint16, .uint32, .uint64, .nint, .nuint,
   .float32, .float64, .voidPtr, .bool, .stringz]

/-- The position of a builtin in every type table. The string type comes after
the byte pointer it decorates. -/
def id : Builtin → TypeId
  | .void => 1
  | .int8 => 2
  | .int16 => 3
  | .int32 => 4
  | .int64 => 5
  | .uint8 => 6
  | .uint16 => 7
  | .uint32 => 8
  | .uint64 => 9
  | .nint => 10
  | .nuint => 11
  | .float32 => 12
  | .float64 => 13
  | .voidPtr => 14
  | .bool => 15
  | .stringz => 17

def ofNumber? (n : Nat) : Option Builtin :=
  if n = 0 then none else all[n - 1]?

def fieldName : Builtin → String
  | .void => "Void"
  | .int8 => "Int8"
  | .int16 => "Int16"
  | .int32 => "Int32"
  | .int64 => "Int64"
  | .uint8 => "Uint8"
  | .uint16 => "Uint16"
  | .uint32 => "Uint32"
  | .uint64 => "Uint64"
  | .nint => "Nint"
  | .nuint => "Nuint"
  | .float32 => "Float32"
  | .float64 => "Float64"
  | .voidPtr => "VoidPtr"
  | .bool => "Bool"
  | .stringz => "Stringz"

def listing : String :=
  "\x7bInvalid:0 " ++
    String.intercalate " " (all.map fun b => b.fieldName ++ ":" ++ decimalNat b.id) ++ "\x7d"

end Builtin

end TypedIR
