import TypedIR.Function

/-
  Modules of LLVM code: functions made of blocks of typed instructions.

  Only what exported functions need is here. Every value of a function has a
  slot on the stack, parameters and slots are named after what they hold, and
  all other results are numbered. Functions of a module name one another by
  their position in it.
-/

namespace TypedIR.Llvm

/-- The types of exported code. -/
inductive LType where
  | void
  | int (bits : Nat)
  | float
  | double
  | pointer (target : LType)
  /-- That many bytes in a row. -/
  | bytes (count : Nat)
  deriving DecidableEq, Repr, Inhabited

def LType.address : LType := .pointer (.int 8)

/-- The names inside a function. -/
inductive Name where
  | param (i : Nat)
  | slot (v : ValueId)
  | temp (n : Nat)
  deriving DecidableEq, Repr, Inhabited

/-- What an instruction works on. -/
inductive Operand where
  | named (x : Name) (type : LType)
  | int (bits : Nat) (n : Int)
  /-- A floating point constant, as the bits of the double. -/
  | float (type : LType) (bits : UInt64)
  | null
  /-- A constant address. -/
  | address (n : Int)
  deriving DecidableEq, Repr, Inhabited

def Operand.type : Operand → LType
  | .named _ t => t
  | .int bits _ => .int bits
  | .float t _ => t
  | .null => .address
  | .address _ => .address

/-- Instructions with two operands of one type. -/
inductive BinaryOp where
  | add | sub | mul | sdiv | udiv | srem | urem | and | or | xor | shl | ashr | lshr
  | fadd | fsub | fmul | fdiv | frem
  deriving DecidableEq, Repr, Inhabited

/-- Conversions. -/
inductive CastOp where
  | trunc | zext | sext | fptrunc | fpext | fptoui | fptosi | uitofp | sitofp
  | ptrtoint | inttoptr | bitcast
  deriving DecidableEq, Repr, Inhabited

/-- Comparisons: of integers and addresses, and of floating point numbers. -/
inductive Predicate where
  | eq | ne | slt | sle | sgt | sge | ult | ule | ugt | uge
  | oeq | olt | ole | ogt | oge | une
  deriving DecidableEq, Repr, Inhabited

def Predicate.onFloats : Predicate → Bool
  | .oeq | .olt | .ole | .ogt | .oge | .une => true
  | _ => false

/-- Instructions. Those with a result say which number it has. -/
inductive Instr where
  | slot (v : ValueId) (type : LType)
  | alloca (dest : Nat) (count : Operand)
  | load (dest : Nat) (type : LType) (source : Operand)
  | store (x target : Operand)
  | binary (dest : Nat) (op : BinaryOp) (a b : Operand)
  | negate (dest : Nat) (a : Operand)
  | compare (dest : Nat) (p : Predicate) (a b : Operand)
  | cast (dest : Nat) (op : CastOp) (a : Operand) (type : LType)
  | element (dest : Nat) (type : LType) (base index : Operand)
  /-- A call of the function at a position of the module; one that gives
  nothing has no result. -/
  | call (dest : Option Nat) (callee : Nat) (args : List Operand)
  deriving DecidableEq, Repr, Inhabited

def Instr.temp? : Instr → Option Nat
  | .slot _ _ | .store _ _ => none
  | .alloca d _ | .load d _ _ | .binary d _ _ _ | .negate d _ | .compare d _ _ _ | .cast d _ _ _
  | .element d _ _ _ => some d
  | .call d _ _ => d

/-- The names of blocks: the entry, a label of the function, or the place
before an instruction. -/
inductive BlockName where
  | entry
  | label (l : LabelId)
  | before (pc : Nat)
  deriving DecidableEq, Repr, Inhabited

/-- How blocks end. -/
inductive Terminator where
  | jump (dest : BlockName)
  | branch (cond : Operand) (yes no : BlockName)
  | ret (x : Option Operand)
  | unreachable
  deriving DecidableEq, Repr, Inhabited

/-- A block; one that is under construction has no end yet. -/
structure Block where
  name : BlockName
  instrs : Array Instr := #[]
  terminator : Option Terminator := none
  deriving Inhabited

/-- The body of a function: its blocks, and the order in which they are listed.
A block can be listed again if its label is placed again. -/
structure Body where
  blocks : Array Block := #[]
  order : Array Nat := #[]
  deriving Inhabited

def Body.listed (b : Body) : List Block :=
  b.order.toList.filterMap (b.blocks[·]?)

/-- A function: a definition if it has a body, a declaration if not. -/
structure Function where
  name : String
  ret : LType
  params : List LType
  variadic : Bool := false
  body : Option Body := none
  deriving Inhabited

/-- A module. -/
structure Module where
  triple : String := ""
  functions : Array Function := #[]
  deriving Inhabited

end TypedIR.Llvm
